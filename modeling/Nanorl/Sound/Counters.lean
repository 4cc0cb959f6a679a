import Nanorl.Lib.Logged
import Nanorl.Sound.Chunks

/-!
# Nanorl.Sound.Counters

The three counters of the read buffer.

The reader is watched as it runs: a `Logged` reader tells its state where a function
begins or ends and where `read_wrapper` is called, what it asks `read_wrapper` for, which
entries of `rd_buf` it hands out, and how many bytes it has consumed. Without the log it
is the reader (`Watched.nrlIoRead_erases`); and of every run the whole log is good
(`counters_invariant`).
-/

namespace Nanorl

/-! ### How deep a tree is -/

/-- Every path of the tree has this many edges at most. -/
def DfaNode.DepthLe : Nat → DfaNode → Prop
  | _, .accept _ _ _ => True
  | 0, .children _ _ nodes => nodes = []
  | d + 1, .children _ _ nodes => ∀ child ∈ nodes, DfaNode.DepthLe d child

theorem DfaNode.depthLe_fresh (d : Nat) (edge : Byte) (custom : Bool) :
    DfaNode.DepthLe d (.children edge custom []) := by
  cases d with
  | zero => rfl
  | succ d => exact fun _ hchild => absurd hchild List.not_mem_nil

/-- An insertion makes no path longer than its sequence. -/
theorem dfaInsert_depthLe {acceptValue : DfaAcceptor} {custom : Bool} :
    ∀ {sequence : List Byte} {node node' : DfaNode} {d : Nat}, sequence.length ≤ d → node.DepthLe d →
      dfaInsert acceptValue custom sequence node = .ok node' → node'.DepthLe d
  | [], _, node', d, _, _, h => by
    obtain ⟨-, rfl⟩ := dfaInsert_nil.mp h
    cases d <;> trivial
  | _ :: _, .accept _ _ _, _, _, _, _, h => by cases h
  | _ :: _, .children _ _ _, _, 0, hlength, _, _ => absurd hlength (Nat.not_succ_le_zero _)
  | b :: sequence, .children e c nodes, node', d + 1, hlength, hdepth, h => by
    obtain ⟨nodes', hins, rfl⟩ := dfaInsert_cons_children.mp h
    intro m hm
    rcases insertChild_mem hins m hm with hm | ⟨x, hx | rfl, hr⟩
    · exact hdepth m hm
    · exact dfaInsert_depthLe (Nat.le_of_succ_le_succ hlength) (hdepth x hx) hr
    · exact dfaInsert_depthLe (Nat.le_of_succ_le_succ hlength) (DfaNode.depthLe_fresh _ _ _) hr

theorem insertAll_depthLe {es : List DfaEntry} {root root' : DfaNode} {d : Nat}
    (hlength : ∀ e ∈ es, e.sequence.length ≤ d) (hroot : root.DepthLe d) (h : insertAll es root = .ok root') :
    root'.DepthLe d :=
  (Run.exec_ends (F := fun _ => True) (I := DfaNode.DepthLe d) (C := fun e : DfaEntry => e.sequence.length ≤ d)
    (fun _ _ he hnode => ⟨dfaInsert_depthLe he hnode, fun _ => trivial⟩) hlength hroot).of_ok h

/-! ### Watching -/

/-- The reader, and how many bytes it has consumed so far: what has been added to
`rd_used` by a match and by an accepted or a rejected character. -/
structure Counted where
  io : Io
  consumed : Nat

/-- `count` bytes are consumed. -/
def Counted.consume (count : Nat) (r : Counted) : Counted where
  io := { r.io with rdUsed := r.io.rdUsed + count, rdPending := 0 }
  consumed := r.consumed + count

/-- What a reader that is watched tells. -/
inductive ReaderEvent
  /-- A function begins or ends in this state. -/
  | state (io : Io)
  /-- The state between two calls of `nrl_io_init` and `nrl_io_read`. -/
  | between (io : Io)
  /-- `read_wrapper` is asked for `count` bytes, to be stored from `start` on. -/
  | request (start count : Nat)
  /-- `next_char` returns this entry of `rd_buf`. -/
  | entry (index : Nat) (io : Io)
  /-- A call of `nrl_io_read` is over, and what had been consumed before and has been now. -/
  | read (before after : Nat)

abbrev Watch := Logged ReaderEvent Fault

namespace Watched

open Logged (emit lift)

variable (P : Platform)

/-- `read_wrapper` -/
def readWrapper (start count : Nat) (r : Counted) : Watch (Nat × Counted) := do
  emit (.state r.io)
  emit (.request start count)
  let (bytes, io) ← lift (Nanorl.readWrapper P start count r.io)
  pure (bytes, { r with io })

/-- The first branch of `next_char`. -/
def fillBuffer (r : Counted) : Watch Counted :=
  if r.io.rdUsed = r.io.rdCount then do
    let (bytes, r) ← readWrapper P 0 ioBufSize { r with io := { r.io with rdUsed := 0, rdPending := 0 } }
    pure { r with io := { r.io with rdCount := bytes } }
  else pure r

/-- The second branch of `next_char`. -/
def refillBuffer (r : Counted) : Watch Counted :=
  if r.io.rdUsed + r.io.rdPending = r.io.rdCount then do
    let io ← lift (r.io.store 0 r.io.behindCount)
    let io := { io with rdCount := io.rdPending, rdUsed := 0, world := io.world.nextStray }
    let (bytes, r) ← readWrapper P io.rdCount (ioBufSize - io.rdCount) { r with io }
    pure { r with io := { r.io with rdCount := r.io.rdCount + bytes } }
  else pure r

/-- `rd_buf[rd_used + rd_pending++]` -/
def takeChar (r : Counted) : Watch (Byte × Counted) := do
  emit (.entry (r.io.rdUsed + r.io.rdPending) r.io)
  let (byte, io) ← lift (Nanorl.takeChar r.io)
  emit (.state io)
  pure (byte, { r with io })

/-- `next_char` -/
def nextChar (r : Counted) : Watch (Byte × Counted) := do
  emit (.state r.io)
  let r ← fillBuffer P r
  emit (.state r.io)
  let r ← refillBuffer P r
  emit (.state r.io)
  takeChar r

/-- `count` calls of `next_char`. -/
def nextChars : Nat → Counted → Watch (List Byte × Counted)
  | 0, r => pure ([], r)
  | count + 1, r => do
      let (byte, r) ← nextChar P r
      let (bytes, r) ← nextChars count r
      pure (byte :: bytes, r)

/-- `next_uchar` -/
def nextUchar (r : Counted) : Watch (Uchar × Counted) := do
  emit (.state r.io)
  let (lead, r) ← nextChar P r
  let (bytes, r) ← nextChars P (P.utf8Inspect lead).following r
  let (consumed, uc) := P.utf8ParseUchar (ucharBuffer (lead :: bytes))
  if consumed = 0 then
    emit (.state (r.consume 1).io)
    pure (unicodeErrorChar, r.consume 1)
  else
    emit (.state (r.consume consumed).io)
    pure (uc, r.consume consumed)

mutual
/-- The loop of `nrl_dfa_parse` at node `trav`. -/
def parse : DfaNode → DfaAcceptor → Counted → Watch (DfaResult × DfaAcceptor × Counted)
  | .accept _ _ _, acceptBuf, r => do
      let (_, r) ← nextChar P r
      pure (.empty, acceptBuf, r)
  | .children _ _ nodes, acceptBuf, r => do
      let (input, r) ← nextChar P r
      parseChildren nodes input acceptBuf r
/-- The inner loop over the children of `trav`. -/
def parseChildren :
    List DfaNode → Byte → DfaAcceptor → Counted → Watch (DfaResult × DfaAcceptor × Counted)
  | [], _, acceptBuf, r => pure (.empty, acceptBuf, r)
  | child :: nodes, input, acceptBuf, r =>
    if input = child.edge then
      if child.childrenCount = 0 then
        pure (if child.custom then .custom else .input, child.acceptor, r)
      else parse child acceptBuf r
    else parseChildren nodes input acceptBuf r
end

/-- `nrl_dfa_parse` -/
def nrlDfaParse (root : DfaNode) (acceptBuf : DfaAcceptor) (r : Counted) :
    Watch (DfaResult × DfaAcceptor × Counted) := do
  emit (.state r.io)
  if root.childrenCount = 0 then pure (.empty, acceptBuf, r) else parse P root acceptBuf r

/-- The read of `nrl_io_read` itself. -/
def fillUnparsed (r : Counted) : Watch Counted :=
  if r.io.rdCount = r.io.rdUsed then do
    let (bytes, r) ← readWrapper P 0 ioBufSize r
    pure { r with io := { r.io with rdCount := bytes, rdUsed := 0 } }
  else pure r

/-- `nrl_io_read` -/
def nrlIoRead (root : DfaNode) (buffer : InputBuf) (r : Counted) :
    Watch (InputType × InputBuf × Counted) := do
  let (result, escape, r) ← nrlDfaParse P root buffer.escape r
  emit (.state r.io)
  let buffer := { buffer with escape }
  if result ≠ .empty then
    let r := r.consume r.io.rdPending
    let buffer := { buffer with more := decide (r.io.rdUsed < r.io.rdCount) }
    pure (if result = .custom then .customEscape else .escape, buffer, r)
  else
    let r ← fillUnparsed P r
    let (uc, r) ← nextUchar P { r with io := { r.io with rdPending := 0 } }
    let (type, buffer) := classify uc { buffer with more := decide (r.io.rdUsed < r.io.rdCount) }
    pure (type, buffer, r)

/-! ### Without the log -/

theorem readWrapper_erases (start count : Nat) (r : Counted) :
    (readWrapper P start count r).Erases (Prod.map id Counted.io) (Nanorl.readWrapper P start count r.io) :=
  .emit_bind (.emit_bind (.lift_bind fun ⟨_, _⟩ => .pure _ _))

theorem fillBuffer_erases (r : Counted) :
    (fillBuffer P r).Erases Counted.io (Nanorl.fillBuffer P r.io) := by
  unfold fillBuffer Nanorl.fillBuffer
  split
  · exact (readWrapper_erases P _ _ _).bind fun ⟨_, _⟩ => .pure _ _
  · exact .pure _ _

theorem refillBuffer_erases (r : Counted) :
    (refillBuffer P r).Erases Counted.io (Nanorl.refillBuffer P r.io) := by
  unfold refillBuffer Nanorl.refillBuffer
  split
  · exact (Logged.Erases.lift _).bind fun _ => (readWrapper_erases P _ _ _).bind fun ⟨_, _⟩ => .pure _ _
  · exact .pure _ _

theorem takeChar_erases (r : Counted) :
    (takeChar r).Erases (Prod.map id Counted.io) (Nanorl.takeChar r.io) :=
  .emit_bind (.lift_bind fun ⟨_, _⟩ => .emit_bind (.pure _ _))

theorem nextChar_erases (r : Counted) :
    (nextChar P r).Erases (Prod.map id Counted.io) (Nanorl.nextChar P r.io) :=
  .emit_bind ((fillBuffer_erases P r).bind fun r₁ =>
    .emit_bind ((refillBuffer_erases P r₁).bind fun r₂ => .emit_bind (takeChar_erases r₂)))

theorem nextChars_erases (count : Nat) (r : Counted) :
    (nextChars P count r).Erases (Prod.map id Counted.io) (Nanorl.nextChars P count r.io) := by
  induction count generalizing r with
  | zero => exact .pure _ _
  | succ count ih =>
    exact (nextChar_erases P r).bind fun ⟨_, r₁⟩ => (ih r₁).bind fun ⟨_, _⟩ => .pure _ _

theorem nextUchar_erases (r : Counted) :
    (nextUchar P r).Erases (Prod.map id Counted.io) (Nanorl.nextUchar P r.io) := by
  refine .emit_bind ((nextChar_erases P r).bind fun ⟨lead, r₁⟩ =>
    (nextChars_erases P _ r₁).bind fun ⟨bytes, r₂⟩ => ?_)
  dsimp only [Prod.map, id]
  by_cases hconsumed : (P.utf8ParseUchar (ucharBuffer (lead :: bytes))).1 = 0
  · rw [if_pos hconsumed, if_pos hconsumed]
    exact .emit_bind (.pure _ _)
  · rw [if_neg hconsumed, if_neg hconsumed]
    exact .emit_bind (.pure _ _)

mutual
/-- The tree leads both parsers the same way. -/
theorem parse_erases : ∀ (node : DfaNode) (acceptBuf : DfaAcceptor) (r : Counted),
    (parse P node acceptBuf r).Erases (Prod.map id (Prod.map id Counted.io))
      (node.parse (Nanorl.nextChar P) acceptBuf r.io)
  | .accept _ _ _, _, r => (nextChar_erases P r).bind fun ⟨_, _⟩ => .pure _ _
  | .children _ _ nodes, acceptBuf, r =>
    (nextChar_erases P r).bind fun ⟨input, r₁⟩ => parseChildren_erases nodes input acceptBuf r₁

theorem parseChildren_erases : ∀ (nodes : List DfaNode) (input : Byte) (acceptBuf : DfaAcceptor) (r : Counted),
    (parseChildren P nodes input acceptBuf r).Erases (Prod.map id (Prod.map id Counted.io))
      (DfaNode.parseChildren (Nanorl.nextChar P) nodes input acceptBuf r.io)
  | [], _, _, _ => .pure _ _
  | child :: nodes, input, acceptBuf, r => by
    rw [parseChildren, DfaNode.parseChildren]
    split
    · split
      · exact .pure _ _
      · exact parse_erases child acceptBuf r
    · exact parseChildren_erases nodes input acceptBuf r
end

theorem nrlDfaParse_erases (root : DfaNode) (acceptBuf : DfaAcceptor) (r : Counted) :
    (nrlDfaParse P root acceptBuf r).Erases (Prod.map id (Prod.map id Counted.io))
      (Nanorl.nrlDfaParse (Nanorl.nextChar P) root acceptBuf r.io) := by
  unfold nrlDfaParse Nanorl.nrlDfaParse
  refine .emit_bind ?_
  split
  · exact .pure _ _
  · exact parse_erases P root acceptBuf r

theorem fillUnparsed_erases (r : Counted) :
    (fillUnparsed P r).Erases Counted.io (Nanorl.fillUnparsed P r.io) := by
  unfold fillUnparsed Nanorl.fillUnparsed
  split
  · exact (readWrapper_erases P _ _ _).bind fun ⟨_, _⟩ => .pure _ _
  · exact .pure _ _

theorem nrlIoRead_erases (root : DfaNode) (buffer : InputBuf) (r : Counted) :
    (nrlIoRead P root buffer r).Erases (Prod.map id (Prod.map id Counted.io))
      (Nanorl.nrlIoRead P root buffer r.io) := by
  refine (nrlDfaParse_erases P root buffer.escape r).bind fun ⟨result, escape, r₁⟩ => .emit_bind ?_
  dsimp only [Prod.map, id]
  by_cases hresult : result ≠ .empty
  · rw [if_pos hresult, if_pos hresult]
    exact .pure _ _
  · rw [if_neg hresult, if_neg hresult]
    exact (fillUnparsed_erases P r₁).bind fun r₂ => (nextUchar_erases P _).bind fun ⟨_, _⟩ => .pure _ _

end Watched

/-! ### The invariant -/

/-- The invariant of the counters. -/
structure Counters (io : Io) : Prop where
  used_le : io.rdUsed + io.rdPending ≤ io.rdCount
  count_le : io.rdCount ≤ ioBufSize

/-- What the claims on a reader come to, event by event. -/
def ReaderEvent.Good : ReaderEvent → Prop
  | state io => Counters io
  | between io => Counters io ∧ io.rdPending = 0
  | request start count => 0 < count ∧ start + count ≤ ioBufSize
  | entry index io => index < io.rdCount
  | read before after => before < after

/-- `k` characters are pending and `c` bytes are consumed. Of an empty preload nothing has
been asked, so the buffer is empty. -/
structure CountedAt (k c : Nat) (r : Counted) : Prop where
  counters : Counters r.io
  pending : r.io.rdPending = k
  consumed : r.consumed = c
  preload : r.io.preloadData = some [] → r.io.rdUsed = r.io.rdCount

theorem CountedAt.used_le {k c : Nat} {r : Counted} (h : CountedAt k c r) : r.io.rdUsed + k ≤ r.io.rdCount :=
  h.pending ▸ h.counters.used_le

/-- Pending characters are consumed, from the first on. -/
theorem CountedAt.consume {k c n : Nat} {r : Counted} (h : CountedAt k c r) (hpos : 0 < k) (hn : n ≤ k) :
    CountedAt 0 (c + n) (r.consume n) := by
  have hused := h.used_le
  refine ⟨⟨?_, h.counters.count_le⟩, rfl, congrArg (· + n) h.consumed, fun hp => ?_⟩
  · dsimp only [Counted.consume]
    omega
  · have := h.preload hp
    omega

/-- Pending characters are taken back. -/
theorem CountedAt.giveUp {k c : Nat} {r : Counted} (h : CountedAt k c r) :
    CountedAt 0 c { r with io := { r.io with rdPending := 0 } } :=
  ⟨⟨(Nat.le_add_right _ _).trans h.counters.used_le, h.counters.count_le⟩, rfl, h.consumed, h.preload⟩

/-- The one fault of a reader is that it has no file. -/
def NoFile (fault : Fault) : Prop := fault = .assertion .readFile

abbrev WatchSafe {α : Type} (Q : α → Prop) (x : Watch α) : Prop := x.Safe ReaderEvent.Good NoFile Q

namespace Watched

variable (P : Platform)

/-- What `read_wrapper` leaves alone, and what it delivers. -/
structure Delivered (count : Nat) (r : Counted) (bytes : Nat) (r' : Counted) : Prop where
  le : bytes ≤ count
  pos : r.io.preloadData ≠ some [] → 0 < bytes
  preload : r'.io.preloadData ≠ some []
  count : r'.io.rdCount = r.io.rdCount
  used : r'.io.rdUsed = r.io.rdUsed
  pending : r'.io.rdPending = r.io.rdPending
  consumed : r'.consumed = r.consumed

theorem readWrapper_safe {start count : Nat} {r : Counted} (hcounters : Counters r.io) (hc : 0 < count)
    (hfit : start + count ≤ ioBufSize) :
    WatchSafe (fun p => Delivered count r p.1 p.2) (readWrapper P start count r) := by
  refine .emit_bind hcounters (.emit_bind ⟨hc, hfit⟩ ?_)
  have hends : Run.Ends NoFile (fun p => Delivered count r p.1 { r with io := p.2 })
      (Nanorl.readWrapper P start count r.io) := by
    rw [readWrapper_eq P hc hfit]
    refine Run.Ends.bind (Q := fun _ => True) ⟨fun _ => trivial, P.assert_error⟩ fun _ _ => .ok ?_
    exact ⟨r.io.source.next_length_le hc, fun hp => List.length_pos_iff.mpr (Source.next_ne_nil hc hp),
      Source.next_preload r.io.source, rfl, rfl, rfl, rfl⟩
  refine (Logged.Safe.lift hends).bind ?_
  rintro ⟨bytes, io⟩ h
  exact .pure h

theorem fillBuffer_safe {k c : Nat} {r : Counted} (h : CountedAt k c r) :
    WatchSafe (fun r' => CountedAt k c r' ∧ (r'.io.rdUsed < r'.io.rdCount ∨ r'.io.preloadData ≠ some []))
      (fillBuffer P r) := by
  have hused := h.used_le
  unfold fillBuffer
  split
  · rename_i hempty
    obtain rfl : 0 = k := by omega
    refine (readWrapper_safe P (r := { r with io := { r.io with rdUsed := 0, rdPending := 0 } })
      ⟨Nat.zero_le _, h.counters.count_le⟩ ioBufSize_pos (Nat.le_of_eq (Nat.zero_add _))).bind ?_
    rintro ⟨bytes, r'⟩ hd
    refine .pure ⟨⟨⟨?_, hd.le⟩, hd.pending, hd.consumed.trans h.consumed,
      fun hp => absurd hp hd.preload⟩, .inr hd.preload⟩
    have hused' := hd.used
    have hpending' := hd.pending
    dsimp only at hused' hpending' ⊢
    omega
  · rename_i hempty
    exact .pure ⟨h, .inl (by omega)⟩

/-- Behind both branches there is a character to hand out. -/
theorem refillBuffer_safe {k c : Nat} {r : Counted} (h : CountedAt k c r) (hk : k < ioBufSize)
    (hfilled : r.io.rdUsed < r.io.rdCount ∨ r.io.preloadData ≠ some []) :
    WatchSafe (fun r' => CountedAt k c r' ∧ r'.io.rdUsed + k < r'.io.rdCount) (refillBuffer P r) := by
  have hused := h.used_le
  have hpending := h.pending
  unfold refillBuffer
  split
  · have hpreload : r.io.preloadData ≠ some [] := by
      rcases hfilled with hlt | hp
      · intro hp
        have := h.preload hp
        omega
      · exact hp
    have hstore : r.io.store 0 r.io.behindCount =
        .ok { r.io with rdBuf := memcpy r.io.rdBuf 0 r.io.behindCount } := by
      rw [Io.store, if_pos (by simp only [Io.behindCount, List.length_map, List.length_range]; omega)]
    refine (Logged.Safe.lift (Q := fun io => io = { r.io with rdBuf := memcpy r.io.rdBuf 0 r.io.behindCount })
      (hstore ▸ .ok rfl)).bind ?_
    rintro _ rfl
    refine (readWrapper_safe P ⟨?_, ?_⟩ ?_ ?_).bind ?_
    · exact Nat.le_of_eq (Nat.zero_add _)
    · dsimp only
      omega
    · dsimp only
      omega
    · dsimp only
      omega
    · rintro ⟨bytes, r'⟩ hd
      have hpos := hd.pos hpreload
      have hle := hd.le
      have hused' := hd.used
      have hcount' := hd.count
      have hpending' := hd.pending
      dsimp only at hle hused' hcount' hpending'
      refine .pure ⟨⟨⟨?_, ?_⟩, hpending'.trans hpending, hd.consumed.trans h.consumed,
        fun hp => absurd hp hd.preload⟩, ?_⟩
      · dsimp only
        omega
      · dsimp only
        omega
      · dsimp only
        omega
  · exact .pure ⟨h, by omega⟩

theorem takeChar_safe {k c : Nat} {r : Counted} (h : CountedAt k c r) (hlt : r.io.rdUsed + k < r.io.rdCount) :
    WatchSafe (fun p => CountedAt (k + 1) c p.2) (takeChar r) := by
  have hpending := h.pending
  have hle := h.counters.count_le
  have htaken : CountedAt (k + 1) c { r with io := { r.io with rdPending := r.io.rdPending + 1 } } := by
    refine ⟨⟨?_, hle⟩, congrArg (· + 1) hpending, h.consumed, h.preload⟩
    dsimp only
    omega
  refine .emit_bind (hpending ▸ hlt) ?_
  rw [Nanorl.takeChar, if_pos (by omega)]
  refine (Logged.Safe.lift (Q := fun p => CountedAt (k + 1) c { r with io := p.2 }) (.ok htaken)).bind ?_
  rintro ⟨byte, io⟩ hio
  exact .emit_bind hio.counters (.pure hio)

theorem nextChar_safe {k c : Nat} {r : Counted} (h : CountedAt k c r) (hk : k < ioBufSize) :
    WatchSafe (fun p => CountedAt (k + 1) c p.2) (nextChar P r) := by
  refine .emit_bind h.counters ((fillBuffer_safe P h).bind ?_)
  rintro r₁ ⟨h₁, hfilled⟩
  refine .emit_bind h₁.counters ((refillBuffer_safe P h₁ hk hfilled).bind ?_)
  rintro r₂ ⟨h₂, hlt⟩
  exact .emit_bind h₂.counters (takeChar_safe h₂ hlt)

theorem nextChars_safe {c : Nat} (count : Nat) {k : Nat} {r : Counted} (h : CountedAt k c r)
    (hk : k + count ≤ ioBufSize) :
    WatchSafe (fun p => p.1.length = count ∧ CountedAt (k + count) c p.2) (nextChars P count r) := by
  induction count generalizing k r with
  | zero => exact .pure ⟨rfl, h⟩
  | succ count ih =>
    refine (nextChar_safe P h (by omega)).bind ?_
    rintro ⟨byte, r₁⟩ h₁
    refine (ih h₁ (by omega)).bind ?_
    rintro ⟨bytes, r₂⟩ ⟨hlength, h₂⟩
    refine .pure ⟨?_, ?_⟩
    · exact congrArg (· + 1) hlength
    · rwa [(by omega : k + (count + 1) = k + 1 + count)]

/-- The law at the bytes of one character. -/
theorem consumed_eq (hlaw : P.ConsumesAnnounced) {lead : Byte} {bytes : List Byte}
    (hlength : bytes.length = (P.utf8Inspect lead).following) :
    (P.utf8ParseUchar (ucharBuffer (lead :: bytes))).1 = 0 ∨
      (P.utf8ParseUchar (ucharBuffer (lead :: bytes))).1 = bytes.length + 1 := by
  have hlaw := hlaw ((lead :: bytes) ++ₛ Stream'.const 0)
  have hannounced : announced P ((lead :: bytes) ++ₛ Stream'.const 0) = (lead :: bytes).length := by
    rw [announced, List.length_cons, hlength, Nat.add_comm]
    rfl
  rwa [hannounced, Stream'.take_append_of_le_length _ _ _ (Nat.le_refl _), List.take_length] at hlaw

theorem nextUchar_safe (hlaw : P.ConsumesAnnounced) {c : Nat} {r : Counted} (h : CountedAt 0 c r) :
    WatchSafe (fun p => ∃ n, 0 < n ∧ CountedAt 0 (c + n) p.2) (nextUchar P r) := by
  refine .emit_bind h.counters ((nextChar_safe P h ioBufSize_pos).bind ?_)
  rintro ⟨lead, r₁⟩ h₁
  have hfollowing : (P.utf8Inspect lead).following ≤ 3 := by
    cases P.utf8Inspect lead <;> simp [Utf8Info.following]
  refine (nextChars_safe P _ h₁ (by unfold ioBufSize; omega)).bind ?_
  rintro ⟨bytes, r₂⟩ ⟨hlength, h₂⟩
  dsimp only at hlength h₂ ⊢
  have hconsumed := consumed_eq P hlaw hlength
  generalize (P.utf8ParseUchar (ucharBuffer (lead :: bytes))).1 = consumed at hconsumed ⊢
  split
  · have h₃ := h₂.consume (n := 1) (by omega) (by omega)
    exact .emit_bind h₃.counters (.pure ⟨1, Nat.one_pos, h₃⟩)
  · have h₃ := h₂.consume (n := consumed) (by omega) (by omega)
    exact .emit_bind h₃.counters (.pure ⟨consumed, by omega, h₃⟩)

/-! ### `nrl_io_read` -/

/-- The reader behind a parse: something is pending. -/
abbrev Parsed (c : Nat) (p : DfaResult × DfaAcceptor × Counted) : Prop :=
  ∃ k, 0 < k ∧ CountedAt k c p.2.2

theorem parseChildren_safe {d k c : Nat} {acceptBuf : DfaAcceptor} {r : Counted} (h : CountedAt k c r)
    (hpos : 0 < k) (hparse : ∀ child : DfaNode, child.DepthLe d → child.childrenCount ≠ 0 →
      WatchSafe (Parsed c) (parse P child acceptBuf r)) (input : Byte) {nodes : List DfaNode}
    (hnodes : ∀ child ∈ nodes, child.DepthLe d) :
    WatchSafe (Parsed c) (parseChildren P nodes input acceptBuf r) := by
  induction nodes with
  | nil => exact .pure ⟨k, hpos, h⟩
  | cons child nodes ih =>
    obtain ⟨hchild, hnodes⟩ := List.forall_mem_cons.mp hnodes
    rw [parseChildren]
    split
    · split
      · exact .pure ⟨k, hpos, h⟩
      · exact hparse child hchild ‹_›
    · exact ih hnodes

/-- A parse asks for no more characters than the tree is deep. -/
theorem parse_safe {acceptBuf : DfaAcceptor} {d k c : Nat} {r : Counted} (h : CountedAt k c r)
    (hk : k + d < ioBufSize) {node : DfaNode} (hdepth : node.DepthLe d) (hchildren : node.childrenCount ≠ 0) :
    WatchSafe (Parsed c) (parse P node acceptBuf r) := by
  induction d generalizing k r node with
  | zero =>
    cases node with
    | accept => exact absurd rfl hchildren
    | children e custom nodes => exact absurd (congrArg List.length hdepth) hchildren
  | succ d ih =>
    cases node with
    | accept => exact absurd rfl hchildren
    | children e custom nodes =>
      refine (nextChar_safe P h (by omega)).bind ?_
      rintro ⟨input, r₁⟩ h₁
      exact parseChildren_safe P h₁ (Nat.succ_pos k) (fun child => ih h₁ (by omega)) input hdepth

theorem nrlDfaParse_safe {root : DfaNode} (hroot : root.DepthLe (ioBufSize - 1)) {acceptBuf : DfaAcceptor}
    {c : Nat} {r : Counted} (h : CountedAt 0 c r) :
    WatchSafe (fun p => (p.1 ≠ .empty → Parsed c p) ∧ ∃ k, CountedAt k c p.2.2)
      (nrlDfaParse P root acceptBuf r) := by
  refine .emit_bind h.counters ?_
  split
  · exact .pure ⟨fun hempty => absurd rfl hempty, 0, h⟩
  · have hdeep : 0 + (ioBufSize - 1) < ioBufSize := by
      have := ioBufSize_pos
      omega
    refine (parse_safe P h hdeep hroot ‹_›).mono ?_
    rintro p ⟨k, hpos, hk⟩
    exact ⟨fun _ => ⟨k, hpos, hk⟩, k, hk⟩

theorem fillUnparsed_safe {k c : Nat} {r : Counted} (h : CountedAt k c r) :
    WatchSafe (fun r' => ∃ k, CountedAt k c r') (fillUnparsed P r) := by
  have hused := h.used_le
  have hpending := h.pending
  unfold fillUnparsed
  split
  · refine (readWrapper_safe P h.counters ioBufSize_pos (Nat.le_of_eq (Nat.zero_add _))).bind ?_
    rintro ⟨bytes, r'⟩ hd
    have hpending' := hd.pending
    refine .pure ⟨0, ⟨?_, hd.le⟩, ?_, hd.consumed.trans h.consumed, fun hp => absurd hp hd.preload⟩
    · dsimp only at hpending' ⊢
      omega
    · dsimp only at hpending' ⊢
      omega
  · exact .pure ⟨k, h⟩

/-- Every event that is read consumes something. -/
theorem nrlIoRead_safe (hlaw : P.ConsumesAnnounced) {root : DfaNode} (hroot : root.DepthLe (ioBufSize - 1))
    (buffer : InputBuf) {c : Nat} {r : Counted} (h : CountedAt 0 c r) :
    WatchSafe (fun p => ∃ n, 0 < n ∧ CountedAt 0 (c + n) p.2.2) (nrlIoRead P root buffer r) := by
  refine (nrlDfaParse_safe P hroot h).bind ?_
  rintro ⟨result, escape, r₁⟩ ⟨hparsed, k, h₁⟩
  refine .emit_bind h₁.counters ?_
  split
  · obtain ⟨k, hpos, h₁⟩ := hparsed ‹_›
    exact .pure ⟨k, hpos, h₁.pending ▸ h₁.consume hpos (Nat.le_of_eq h₁.pending)⟩
  · refine (fillUnparsed_safe P h₁).bind ?_
    rintro r₂ ⟨k, h₂⟩
    refine (nextUchar_safe P hlaw h₂.giveUp).bind ?_
    rintro ⟨uc, r₃⟩ h₃
    exact .pure h₃

end Watched

/-! ### Runs -/

/-- What `nrl_dfa_build` may have made of `root`, of tables whose sequences are shorter than
the read buffer. -/
inductive Built : DfaNode → Prop
  | start : Built dfaRoot
  | build {t : Terminfo} {envTerm : List Byte} {root root' : DfaNode} :
    (∀ e ∈ dfaEntries t envTerm, e.sequence.length < ioBufSize) → Built root →
    nrlDfaBuild t envTerm root = .ok root' → Built root'

theorem Built.depthLe {root : DfaNode} (h : Built root) : root.DepthLe (ioBufSize - 1) := by
  induction h with
  | start => exact DfaNode.depthLe_fresh _ _ _
  | build hshort _ hbuild ih => exact insertAll_depthLe (fun e he => Nat.le_sub_one_of_lt (hshort e he)) ih hbuild

/-- A call of the reader; a read finds the tree of `dfa.c` as it has been built by then. -/
inductive ReaderCall
  | init (readFd echoFd : Int) (preload : Option (List Byte))
  | read (root : DfaNode) (built : Built root) (buffer : InputBuf)

namespace ReaderCall

variable (P : Platform)

def perform : ReaderCall → Io → Except Fault Io
  | init readFd echoFd preload, io => .ok (nrlIoInit readFd echoFd preload io)
  | read root _ buffer, io => do
      let (_, _, io) ← nrlIoRead P root buffer io
      pure io

/-- The same, watched. -/
def watch : ReaderCall → Counted → Watch Counted
  | init readFd echoFd preload, r => do
      let r := { r with io := nrlIoInit readFd echoFd preload r.io }
      Logged.emit (.between r.io)
      pure r
  | read root _ buffer, r => do
      let (_, _, r') ← Watched.nrlIoRead P root buffer r
      Logged.emit (.read r.consumed r'.consumed)
      Logged.emit (.between r'.io)
      pure r'

theorem watch_erases (call : ReaderCall) (r : Counted) :
    (call.watch P r).Erases Counted.io (call.perform P r.io) := by
  cases call with
  | init => exact .emit_bind (.pure _ _)
  | read root built buffer =>
    exact (Watched.nrlIoRead_erases P root buffer r).bind fun ⟨_, _, _⟩ => .emit_bind (.emit_bind (.pure _ _))

theorem watch_safe (hlaw : P.ConsumesAnnounced) (call : ReaderCall) {r : Counted}
    (h : CountedAt 0 r.consumed r) : WatchSafe (fun r => CountedAt 0 r.consumed r) (call.watch P r) := by
  cases call with
  | init readFd echoFd preload =>
    have hcounters : Counters (nrlIoInit readFd echoFd preload r.io) := ⟨Nat.le_refl _, Nat.zero_le _⟩
    exact .emit_bind ⟨hcounters, rfl⟩ (.pure ⟨hcounters, rfl, rfl, fun _ => rfl⟩)
  | read root built buffer =>
    refine (Watched.nrlIoRead_safe P hlaw built.depthLe buffer h).bind ?_
    rintro ⟨_, _, r'⟩ ⟨n, hpos, h'⟩
    have hconsumed := h'.consumed
    refine .emit_bind ?_ (.emit_bind ⟨h'.counters, h'.pending⟩ (.pure (hconsumed ▸ h')))
    exact hconsumed ▸ Nat.lt_add_of_pos_right hpos

end ReaderCall

/-- Calls of the reader from this state on, watched. -/
def watchCalls (P : Platform) (calls : List ReaderCall) (r : Counted) : Watch Counted := do
  Logged.emit (.between r.io)
  Logged.exec (ReaderCall.watch P) calls r

/-- **The counters.** From the initial counters on, every call of the reader keeps their
invariant; the watched calls are the calls, and the only assert to fail is the one on the
file descriptor. -/
theorem counters_invariant {P : Platform} (hlaw : P.ConsumesAnnounced) {io : Io} (hcount : io.rdCount = 0)
    (hused : io.rdUsed = 0) (hpending : io.rdPending = 0) (calls : List ReaderCall) :
    (∀ event ∈ (watchCalls P calls ⟨io, 0⟩).log, event.Good) ∧
      (watchCalls P calls ⟨io, 0⟩).result.map Counted.io = Run.exec (ReaderCall.perform P) calls io ∧
      ∀ fault, Run.exec (ReaderCall.perform P) calls io = .error fault → fault = .assertion .readFile := by
  have herases : (watchCalls P calls ⟨io, 0⟩).Erases Counted.io (Run.exec (ReaderCall.perform P) calls io) :=
    .emit_bind (.exec (ReaderCall.watch_erases P) calls ⟨io, 0⟩)
  have hcounters : Counters io := ⟨by omega, by omega⟩
  have hstart : CountedAt 0 0 ⟨io, 0⟩ := ⟨hcounters, hpending, rfl, fun _ => hused.trans hcount.symm⟩
  have hsafe : WatchSafe (fun r => CountedAt 0 r.consumed r) (watchCalls P calls ⟨io, 0⟩) :=
    .emit_bind ⟨hcounters, hpending⟩
      (.exec (fun call _ h => ReaderCall.watch_safe P hlaw call h) calls hstart)
  refine ⟨hsafe.events, herases, fun fault hfault => ?_⟩
  rw [← herases] at hfault
  exact hsafe.ends.of_error (Run.map_eq_error.mp hfault)

/-- Escape arrives alone, so the read that tries it as a key is cut by a refill; the preload
is empty. -/
theorem counters_invariant_straddled : ∃ (root : DfaNode) (built : Built root),
    (∀ event ∈ (watchCalls referencePlatform
      [.init 0 1 (some []), .read root built freshBuffer, .read root built freshBuffer]
      ⟨initialReader staticIo 0 1 none ([[0x1b], [120, 10]].map .data), 0⟩).log, event.Good) := by
  obtain ⟨root, hroot⟩ := (nrlDfaBuild_ok_iff xtermTerminfo_loadable (ascii "xterm")).mpr
    xtermTerminfo_unambiguous.prefixFree
  have hshort : ∀ e ∈ dfaEntries xtermTerminfo (ascii "xterm"), e.sequence.length < ioBufSize := by
    decide +kernel
  exact ⟨root, .build hshort .start hroot, (@counters_invariant _ referencePlatform_consumes
    (initialReader staticIo 0 1 none ([[0x1b], [120, 10]].map .data)) rfl rfl rfl _).1⟩

end Nanorl
