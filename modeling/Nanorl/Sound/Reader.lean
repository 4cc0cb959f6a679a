import Nanorl.Model.Io
import Nanorl.Lib.PrefixCode

/-!
# Nanorl.Sound.Reader

`next_char` against the byte stream it reads.

The bytes still to come (preload, results of `read`, end-of-file markers) are one
endless stream, whatever pieces they arrive in. `Pulled a k c s` says that `s` has
handed out the first `k` entries of the stream `a` since the last token: the
entries behind them are still to come, and of the `k` pending slots all but the
first `c` still hold what was handed out. `nextChar_spec` is the step: only a
refill in the middle of a token makes `c` grow, since its `memmove` copies from
behind the buffer's end and not from the pending slots.
-/

namespace Nanorl

/-! ### What is still to be read -/

/-- The preload and the results of `read` that are still to come. -/
structure Source where
  preload : Option (List Byte)
  reads : List ReadResult
  deriving Repr, DecidableEq

/-- The bytes of a list of read results. An end of file or an error delivers one
marker, and behind the list there is nothing but end of file. -/
def readsStream : List ReadResult → Stream' Byte
  | [] => Stream'.const charEot
  | .data (byte :: bytes) :: reads => (byte :: bytes) ++ₛ readsStream reads
  | .data [] :: reads => Stream'.cons charEot (readsStream reads)
  | .failed _ :: reads => Stream'.cons charEot (readsStream reads)

def Source.stream (src : Source) : Stream' Byte := src.preload.getD [] ++ₛ readsStream src.reads

/-- What `read_wrapper` delivers for a request of `count` bytes, and what is left. -/
def Source.next (count : Nat) (src : Source) : List Byte × Source :=
  match src.preload with
  | some preload =>
    (preload.take count,
      { src with preload := if preload.length > count then some (preload.drop count) else none })
  | none =>
    match src.reads with
    | [] => ([charEot], src)
    | .data (byte :: bytes) :: reads =>
      ((byte :: bytes).take count,
        { src with reads := if (byte :: bytes).length ≤ count then reads
            else .data ((byte :: bytes).drop count) :: reads })
    | .data [] :: reads => ([charEot], { src with reads })
    | .failed _ :: reads => ([charEot], { src with reads })

theorem readsStream_data {bytes : List Byte} (h : bytes ≠ []) (reads : List ReadResult) :
    readsStream (.data bytes :: reads) = bytes ++ₛ readsStream reads := by
  cases bytes with
  | nil => exact absurd rfl h
  | cons b bs => rfl

theorem ioBufSize_pos : 0 < ioBufSize := Nat.zero_lt_succ _

/-- However a request cuts the source, its stream stays the same. -/
theorem Source.next_stream (count : Nat) (src : Source) :
    (src.next count).1 ++ₛ (src.next count).2.stream = src.stream := by
  obtain ⟨preload, reads⟩ := src
  cases preload with
  | some p =>
    simp only [Source.next, Source.stream, Option.getD_some]
    by_cases h : p.length > count
    · rw [if_pos h, Option.getD_some, ← Stream'.append_append_stream, List.take_append_drop]
    · rw [if_neg h, Option.getD_none, Stream'.nil_append_stream, List.take_of_length_le (by omega)]
  | none =>
    simp only [Source.next, Source.stream, Option.getD_none, Stream'.nil_append_stream]
    rcases reads with _ | ⟨⟨_ | ⟨b, bs⟩⟩ | e, reads⟩
    · exact (Stream'.const_eq charEot).symm
    · rfl
    · by_cases h : (b :: bs).length ≤ count
      · simp only [if_pos h, List.take_of_length_le h]
        rfl
      · simp only [if_neg h]
        have hne : (b :: bs).drop count ≠ [] := by
          rw [ne_eq, List.drop_eq_nil_iff]
          omega
        rw [readsStream_data hne, Option.getD_none, Stream'.nil_append_stream,
          ← Stream'.append_append_stream, List.take_append_drop]
        rfl
    · rfl

theorem Source.next_length_le {count : Nat} (hc : 0 < count) (src : Source) :
    (src.next count).1.length ≤ count := by
  obtain ⟨preload, reads⟩ := src
  cases preload with
  | some p => exact List.length_take_le count p
  | none =>
    rcases reads with _ | ⟨⟨_ | ⟨b, bs⟩⟩ | e, reads⟩
    · exact hc
    · exact hc
    · exact List.length_take_le count (b :: bs)
    · exact hc

/-- Only an empty preload delivers nothing. -/
theorem Source.next_ne_nil {count : Nat} (hc : 0 < count) {src : Source}
    (h : src.preload ≠ some []) : (src.next count).1 ≠ [] := by
  obtain ⟨preload, reads⟩ := src
  have htake : ∀ {l : List Byte}, l ≠ [] → l.take count ≠ [] := by
    intro l hl
    rw [ne_eq, List.take_eq_nil_iff, not_or]
    exact ⟨by omega, hl⟩
  cases preload with
  | some p => exact htake (fun hp => h (by rw [hp]))
  | none =>
    rcases reads with _ | ⟨⟨_ | ⟨b, bs⟩⟩ | e, reads⟩
    · exact List.cons_ne_nil _ _
    · exact List.cons_ne_nil _ _
    · exact htake (List.cons_ne_nil _ _)
    · exact List.cons_ne_nil _ _

/-- No request leaves an empty preload behind. -/
theorem Source.next_preload {count : Nat} (src : Source) :
    (src.next count).2.preload ≠ some [] := by
  obtain ⟨preload, reads⟩ := src
  cases preload with
  | some p =>
    simp only [Source.next]
    split
    · rw [ne_eq, Option.some.injEq, List.drop_eq_nil_iff]
      omega
    · simp
  | none =>
    rcases reads with _ | ⟨⟨_ | ⟨b, bs⟩⟩ | e, reads⟩ <;> simp [Source.next]

theorem Source.next_preload_none {count : Nat} {src : Source} (h : src.preload = none) :
    (src.next count).2.preload = none := by
  obtain ⟨preload, reads⟩ := src
  obtain rfl : preload = none := h
  rcases reads with _ | ⟨⟨_ | ⟨b, bs⟩⟩ | e, reads⟩ <;> rfl

/-- What filling an empty buffer delivers: an empty preload is skipped. -/
def Source.fill (src : Source) : List Byte × Source :=
  if src.preload = some [] then Source.next ioBufSize { src with preload := none }
  else src.next ioBufSize

theorem Source.fill_stream (src : Source) : src.fill.1 ++ₛ src.fill.2.stream = src.stream := by
  unfold Source.fill
  split
  · rename_i hpre
    rw [Source.next_stream, Source.stream, Source.stream, hpre]
    rfl
  · exact src.next_stream ioBufSize

theorem Source.fill_ne_nil (src : Source) : src.fill.1 ≠ [] := by
  unfold Source.fill
  split
  · exact Source.next_ne_nil ioBufSize_pos (by simp)
  · exact Source.next_ne_nil ioBufSize_pos ‹_›

theorem Source.fill_length_le (src : Source) : src.fill.1.length ≤ ioBufSize := by
  unfold Source.fill
  split <;> exact Source.next_length_le ioBufSize_pos _

/-- The source of a reader. -/
def Io.source (s : Io) : Source := { preload := s.preloadData, reads := s.world.reads }

/-- The bytes a token starting now has before it needs a refill, and what the
refill reads from. -/
def Io.supply (s : Io) : List Byte × Source :=
  if s.rdUsed < s.rdCount then (slice s.rdBuf s.rdUsed (s.rdCount - s.rdUsed), s.source)
  else s.source.fill

/-- The unread bytes of a reader, from the buffer on. -/
def Io.unread (s : Io) : Stream' Byte :=
  slice s.rdBuf s.rdUsed (s.rdCount - s.rdUsed) ++ₛ s.source.stream

/-! ### What reading leaves alone -/

/-- No read of the list fails. -/
def NoFailure (reads : List ReadResult) : Prop := ∀ e, ReadResult.failed e ∉ reads

/-- `w'` is `w` after some reads. -/
structure World.ReadsFrom (w w' : World) : Prop where
  writes : w'.writes = w.writes
  echoed : w'.echoed = w.echoed
  isTty : w'.isTty = w.isTty
  calls : w'.calls = w.calls
  winsizes : w'.winsizes = w.winsizes
  attrs : w'.attrs = w.attrs
  actions : w'.actions = w.actions
  errno : NoFailure w.reads → w'.errno = w.errno ∧ NoFailure w'.reads

theorem World.ReadsFrom.refl (w : World) : w.ReadsFrom w :=
  ⟨rfl, rfl, rfl, rfl, rfl, rfl, rfl, fun h => ⟨rfl, h⟩⟩

theorem World.ReadsFrom.trans {w₁ w₂ w₃ : World} (h : w₁.ReadsFrom w₂)
    (h' : w₂.ReadsFrom w₃) : w₁.ReadsFrom w₃ := by
  refine ⟨h'.writes.trans h.writes, h'.echoed.trans h.echoed, h'.isTty.trans h.isTty,
    h'.calls.trans h.calls, h'.winsizes.trans h.winsizes, h'.attrs.trans h.attrs,
    h'.actions.trans h.actions, fun hno => ?_⟩
  obtain ⟨he, hno⟩ := h.errno hno
  obtain ⟨he', hno'⟩ := h'.errno hno
  exact ⟨he'.trans he, hno'⟩

theorem World.readsFrom_nextStray (w : World) : w.ReadsFrom w.nextStray :=
  ⟨rfl, rfl, rfl, rfl, rfl, rfl, rfl, fun h => ⟨rfl, h⟩⟩

theorem World.readsFrom_read (w : World) (count : Nat) : w.ReadsFrom (w.read count).2 := by
  rcases hr : w.reads with _ | ⟨bytes | e, reads⟩
  · simp only [World.read, hr]
    exact .refl w
  · simp only [World.read, hr]
    refine ⟨rfl, rfl, rfl, rfl, rfl, rfl, rfl, fun h => ⟨rfl, fun e he => ?_⟩⟩
    rw [hr] at h
    dsimp only at he
    split at he
    · exact h e (List.mem_cons_of_mem _ he)
    · rcases List.mem_cons.mp he with he | he
      · cases he
      · exact h e (List.mem_cons_of_mem _ he)
  · simp only [World.read, hr]
    refine ⟨rfl, rfl, rfl, rfl, rfl, rfl, rfl, fun h => ?_⟩
    rw [hr] at h
    exact absurd List.mem_cons_self (h e)

/-- `s'` is `s` after some calls of the reader: the echo side is untouched. -/
structure Io.ReadsFrom (s s' : Io) : Prop where
  readFile : s'.readFile = s.readFile
  echoFile : s'.echoFile = s.echoFile
  wrBuf : s'.wrBuf = s.wrBuf
  wrCount : s'.wrCount = s.wrCount
  echoEnabled : s'.echoEnabled = s.echoEnabled
  preload : s.preloadData = none → s'.preloadData = none
  world : s.world.ReadsFrom s'.world

theorem Io.ReadsFrom.refl (s : Io) : s.ReadsFrom s := ⟨rfl, rfl, rfl, rfl, rfl, id, .refl _⟩

theorem Io.ReadsFrom.trans {s₁ s₂ s₃ : Io} (h : s₁.ReadsFrom s₂) (h' : s₂.ReadsFrom s₃) :
    s₁.ReadsFrom s₃ :=
  ⟨h'.readFile.trans h.readFile, h'.echoFile.trans h.echoFile, h'.wrBuf.trans h.wrBuf,
    h'.wrCount.trans h.wrCount, h'.echoEnabled.trans h.echoEnabled,
    fun hnone => h'.preload (h.preload hnone), h.world.trans h'.world⟩

section Reader

variable (P : Platform)

/-! ### `read_wrapper` -/

/-- The world after a `read_wrapper`, which leaves it alone while there is a preload. -/
def Io.worldAfter (s : Io) (count : Nat) : World :=
  match s.preloadData with
  | some _ => s.world
  | none => (s.world.read count).2

theorem Io.worldAfter_reads (s : Io) (count : Nat) :
    (s.worldAfter count).reads = (s.source.next count).2.reads := by
  cases hp : s.preloadData with
  | some preload => simp [Io.worldAfter, Io.source, hp, Source.next]
  | none =>
    rcases hr : s.world.reads with _ | ⟨⟨_ | ⟨b, bs⟩⟩ | e, reads⟩ <;>
      simp [Io.worldAfter, Io.source, hp, hr, Source.next, World.read]

theorem Io.readsFrom_worldAfter (s : Io) (count : Nat) : s.world.ReadsFrom (s.worldAfter count) := by
  cases hp : s.preloadData with
  | some preload =>
    simp only [Io.worldAfter, hp]
    exact .refl _
  | none =>
    simp only [Io.worldAfter, hp]
    exact s.world.readsFrom_read count

/-- Whatever the file, the request is served behind the assert on it. -/
theorem readWrapper_eq {s : Io} {start count : Nat} (hc : 0 < count) (hfit : start + count ≤ ioBufSize) :
    readWrapper P start count s = P.assert .readFile (s.readFile ≠ -1) >>= fun _ =>
      .ok ((s.source.next count).1.length,
        { s with
          rdBuf := memcpy s.rdBuf start (s.source.next count).1
          preloadData := (s.source.next count).2.preload
          world := s.worldAfter count }) := by
  have hstore : ∀ (s' : Io) (data : List Byte), data.length ≤ count →
      s'.store start data = .ok { s' with rdBuf := memcpy s'.rdBuf start data } := by
    intro s' data hd
    rw [Io.store, if_pos (by omega)]
  unfold readWrapper
  refine congrArg (P.assert .readFile (s.readFile ≠ -1) >>= ·) (funext fun _ => ?_)
  rw [P.assert_of _ (by simpa using hc)]
  simp only [Run.ok_bind]
  cases hp : s.preloadData with
  | some preload =>
    simp only [Io.source, Io.worldAfter, hp, Source.next]
    by_cases h : preload.length > count
    · rw [if_pos h, hstore _ _ (List.length_take_le _ _)]
      simp [if_pos h, Nat.min_eq_left (Nat.le_of_lt h)]
    · rw [if_neg h, hstore _ _ (by omega)]
      simp [if_neg h, List.take_of_length_le (Nat.le_of_not_lt h)]
  | none =>
    rcases hr : s.world.reads with _ | ⟨⟨_ | ⟨b, bs⟩⟩ | e, reads⟩
    · simp [Io.source, Io.worldAfter, hp, hr, Source.next, World.read, hstore _ [charEot] hc]
    · simp [Io.source, Io.worldAfter, hp, hr, Source.next, World.read, hstore _ [charEot] hc]
    · obtain ⟨d, rfl⟩ : ∃ d, count = d + 1 := ⟨count - 1, by omega⟩
      simp only [World.read, hr, List.take_succ_cons, Io.source, Io.worldAfter, hp, Source.next]
      rw [hstore _ _ (by simp)]
      rfl
    · simp [Io.source, Io.worldAfter, hp, hr, Source.next, World.read, hstore _ [charEot] hc]

theorem readWrapper_spec {s : Io} {start count : Nat} (hf : s.readFile ≠ -1)
    (hc : 0 < count) (hfit : start + count ≤ ioBufSize) :
    readWrapper P start count s = .ok ((s.source.next count).1.length,
      { s with
        rdBuf := memcpy s.rdBuf start (s.source.next count).1
        preloadData := (s.source.next count).2.preload
        world := s.worldAfter count }) := by
  rw [readWrapper_eq P hc hfit, P.assert_of _ (by simpa using hf)]
  rfl

/-! ### Pending characters -/

/-- `s` has handed out the first `k` entries of `a`; the pending slots from the
`c`-th on still hold them. -/
structure Pulled (a : Stream' Byte) (k c : Nat) (s : Io) : Prop where
  readFile : s.readFile ≠ -1
  pending : s.rdPending = k
  count_le : s.rdCount ≤ ioBufSize
  used_le : s.rdUsed + k ≤ s.rdCount
  preload : s.preloadData = some [] → s.rdUsed = s.rdCount
  slots : ∀ i, c ≤ i → i < k → s.rdBuf (s.rdUsed + i) = a.get i
  rest : slice s.rdBuf (s.rdUsed + k) (s.rdCount - (s.rdUsed + k)) ++ₛ s.source.stream = a.drop k

/-- Between two tokens. -/
abbrev Ready (a : Stream' Byte) (s : Io) : Prop := Pulled a 0 0 s

theorem Ready.unread_eq {a : Stream' Byte} {s : Io} (h : Ready a s) : s.unread = a := h.rest

/-- A reader whose counters are reset has the whole source before it. -/
theorem ready_of_reset {s : Io} (hf : s.readFile ≠ -1) (hcount : s.rdCount = 0)
    (hused : s.rdUsed = 0) (hpending : s.rdPending = 0) : Ready s.source.stream s := by
  refine ⟨hf, hpending, hcount ▸ Nat.zero_le _, by omega, fun _ => hused.trans hcount.symm,
    fun i _ hi => absurd hi (Nat.not_lt_zero i), ?_⟩
  rw [hcount, Nat.zero_sub]
  rfl

/-- The entries in the buffer are the next ones of the stream. -/
theorem Pulled.slot {a : Stream' Byte} {k c : Nat} {s : Io} (h : Pulled a k c s) {i : Nat}
    (hk : k ≤ i) (hi : s.rdUsed + i < s.rdCount) : s.rdBuf (s.rdUsed + i) = a.get i := by
  have hrest := congrArg (fun b : Stream' Byte => b.get (i - k)) h.rest
  rw [Stream'.get_drop, Stream'.get_append_left _ _ _ (by rw [length_slice]; omega)] at hrest
  have hget := getElem?_slice s.rdBuf (s.rdUsed + k) (s.rdCount - (s.rdUsed + k)) (i - k)
  rw [if_pos (by omega), List.getElem?_eq_getElem (by rw [length_slice]; omega),
    Option.some.injEq] at hget
  rw [hget, (by omega : s.rdUsed + k + (i - k) = s.rdUsed + i), (by omega : k + (i - k) = i)]
    at hrest
  exact hrest

/-- Behind the buffer the source goes on with the stream. -/
theorem Pulled.source_stream {a : Stream' Byte} {k c : Nat} {s : Io} (h : Pulled a k c s) :
    s.source.stream = a.drop (s.rdCount - s.rdUsed) := by
  have hrest := congrArg (Stream'.drop (s.rdCount - (s.rdUsed + k))) h.rest
  have hlen := length_slice s.rdBuf (s.rdUsed + k) (s.rdCount - (s.rdUsed + k))
  have hdrop := Stream'.drop_append_stream
    (slice s.rdBuf (s.rdUsed + k) (s.rdCount - (s.rdUsed + k))) s.source.stream
  rw [hlen] at hdrop
  rw [hdrop, Stream'.drop_drop] at hrest
  have hle := h.used_le
  rwa [(by omega : k + (s.rdCount - (s.rdUsed + k)) = s.rdCount - s.rdUsed)] at hrest

/-- The buffer's entries and the source's stream determine `rest`. -/
theorem rest_of_slots {a : Stream' Byte} {k : Nat} {s : Io}
    (hslots : ∀ i, k ≤ i → s.rdUsed + i < s.rdCount → s.rdBuf (s.rdUsed + i) = a.get i)
    (hused : s.rdUsed + k ≤ s.rdCount)
    (hsource : s.source.stream = a.drop (s.rdCount - s.rdUsed)) :
    slice s.rdBuf (s.rdUsed + k) (s.rdCount - (s.rdUsed + k)) ++ₛ s.source.stream = a.drop k := by
  have hslice : slice s.rdBuf (s.rdUsed + k) (s.rdCount - (s.rdUsed + k)) =
      (a.drop k).take (s.rdCount - (s.rdUsed + k)) := by
    apply List.ext_getElem?
    intro i
    rw [getElem?_slice]
    by_cases hi : i < s.rdCount - (s.rdUsed + k)
    · rw [if_pos hi, Stream'.getElem?_take hi, Stream'.get_drop, ← hslots (k + i) (by omega) (by omega),
        Nat.add_assoc]
    · rw [if_neg hi, List.getElem?_eq_none (by rw [Stream'.length_take]; omega)]
  rw [hslice, hsource, (by omega : s.rdCount - s.rdUsed = k + (s.rdCount - (s.rdUsed + k))),
    ← Stream'.drop_drop, Stream'.append_take_drop]

/-! ### `next_char` -/

/-- Within the buffer only the pending counter moves. -/
theorem nextChar_within {s : Io} (h : s.rdUsed + s.rdPending < s.rdCount)
    (hle : s.rdCount ≤ ioBufSize) :
    nextChar P s =
      .ok (s.rdBuf (s.rdUsed + s.rdPending), { s with rdPending := s.rdPending + 1 }) := by
  rw [nextChar, fillBuffer, if_neg (by omega), Run.ok_bind, refillBuffer, if_neg (by omega),
    Run.ok_bind, takeChar, if_pos (by omega)]

theorem Pulled.within {a : Stream' Byte} {k c : Nat} {s : Io} (h : Pulled a k c s)
    (hlt : s.rdUsed + k < s.rdCount) :
    nextChar P s = .ok (a.get k, { s with rdPending := k + 1 }) ∧
      Pulled a (k + 1) c { s with rdPending := k + 1 } := by
  have hslot := h.slot (Nat.le_refl k) hlt
  have hp := h.pending
  constructor
  · rw [nextChar_within P (by omega) h.count_le, hp, hslot]
  · refine ⟨h.readFile, rfl, h.count_le, hlt, h.preload, fun i hci hi => ?_, ?_⟩
    · rcases Nat.lt_succ_iff_lt_or_eq.mp hi with hi | rfl
      · exact h.slots i hci hi
      · exact hslot
    · exact rest_of_slots (s := { s with rdPending := k + 1 })
        (fun i hi hlt => h.slot (by omega) hlt) hlt h.source_stream

/-- A reader that has just stored `data` behind its `k` pending slots. -/
theorem pulled_loaded {a : Stream' Byte} {k : Nat} {s : Io} {mem : Nat → Byte}
    {data : List Byte} (hf : s.readFile ≠ -1) (hpending : s.rdPending = k) (hused : s.rdUsed = 0)
    (hcount : s.rdCount = k + data.length) (hle : s.rdCount ≤ ioBufSize)
    (hbuf : s.rdBuf = memcpy mem k data) (hpre : s.preloadData ≠ some [])
    (hstream : data ++ₛ s.source.stream = a.drop k) : Pulled a k k s := by
  refine ⟨hf, hpending, hle, by omega, fun h => absurd h hpre,
    fun i hk hi => absurd hi (Nat.not_lt.mpr hk), ?_⟩
  have hslice : slice s.rdBuf (s.rdUsed + k) (s.rdCount - (s.rdUsed + k)) = data := by
    rw [hused, Nat.zero_add, hcount, Nat.add_sub_cancel_left, hbuf, slice_memcpy]
  rw [hslice, hstream]

/-- A `read_wrapper` behind the pending slots of a reader that starts at slot 0
loads it. -/
theorem readWrapper_loads {a : Stream' Byte} {s : Io} (hf : s.readFile ≠ -1)
    (hused : s.rdUsed = 0) (hk : s.rdPending < ioBufSize)
    (hstream : s.source.stream = a.drop s.rdPending) :
    ∃ s₁ data src, s.source.next (ioBufSize - s.rdPending) = (data, src) ∧
      readWrapper P s.rdPending (ioBufSize - s.rdPending) s = .ok (data.length, s₁) ∧
      s₁.rdCount = s.rdCount ∧ s.ReadsFrom s₁ ∧
      ∀ s₂ : Io, s₂ = { s₁ with rdCount := s.rdPending + data.length } →
        Pulled a s.rdPending s.rdPending s₂ ∧ s₂.rdUsed = 0 ∧
        s₂.rdCount = s.rdPending + data.length ∧
        slice s₂.rdBuf s.rdPending data.length = data ∧ s₂.source = src := by
  have hread := readWrapper_spec P hf (by omega : 0 < ioBufSize - s.rdPending)
    (by omega : s.rdPending + (ioBufSize - s.rdPending) ≤ ioBufSize)
  have hreads := s.worldAfter_reads (ioBufSize - s.rdPending)
  have hworld := s.readsFrom_worldAfter (ioBufSize - s.rdPending)
  have hlen := s.source.next_length_le (by omega : 0 < ioBufSize - s.rdPending)
  have hnext := s.source.next_stream (ioBufSize - s.rdPending)
  have hpre := @Source.next_preload (ioBufSize - s.rdPending) s.source
  have hnone := @Source.next_preload_none (ioBufSize - s.rdPending) s.source
  generalize s.source.next (ioBufSize - s.rdPending) = next at hread hreads hlen hnext hpre hnone ⊢
  obtain ⟨data, src⟩ := next
  have hsource : Source.mk src.preload (s.worldAfter (ioBufSize - s.rdPending)).reads = src := by
    rw [hreads]
  refine ⟨_, data, src, rfl, hread, rfl, ⟨rfl, rfl, rfl, rfl, rfl, hnone, hworld⟩, ?_⟩
  intro s₂ hs₂
  subst hs₂
  refine ⟨pulled_loaded hf rfl hused rfl (by dsimp only at hlen ⊢; omega) rfl hpre ?_, hused, rfl,
    slice_memcpy _ _ _, hsource⟩
  rw [← hstream, ← hnext]
  exact congrArg (fun src => data ++ₛ Source.stream src) hsource

/-- A token that has reached the end of the buffer: a refill, which leaves
nothing certain in the slots of the pending characters. -/
theorem Pulled.refilled {a : Stream' Byte} {k c : Nat} {s : Io} (h : Pulled a k c s)
    (hreach : s.rdUsed + k = s.rdCount) (hk : k < ioBufSize) :
    ∃ s₁ data src, s.source.next (ioBufSize - k) = (data, src) ∧ refillBuffer P s = .ok s₁ ∧
      s.ReadsFrom s₁ ∧ Pulled a k k s₁ ∧ s₁.rdUsed = 0 ∧ s₁.rdCount = k + data.length ∧
      slice s₁.rdBuf k data.length = data ∧ s₁.source = src := by
  have hstream : s.source.stream = a.drop k := by
    rw [h.source_stream, ← hreach, Nat.add_sub_cancel_left]
  obtain rfl := h.pending
  have hle := h.count_le
  have hstore : s.store 0 s.behindCount = .ok { s with rdBuf := memcpy s.rdBuf 0 s.behindCount } := by
    rw [Io.store, if_pos (by simp only [Io.behindCount, List.length_map, List.length_range]; omega)]
  obtain ⟨s₁, data, src, hnext, hread, hcount, hfrom, hloaded⟩ :=
    readWrapper_loads P (a := a) (s := { s with
        rdBuf := memcpy s.rdBuf 0 s.behindCount
        rdCount := s.rdPending
        rdUsed := 0
        world := s.world.nextStray }) h.readFile rfl hk hstream
  obtain ⟨hpulled, hloaded⟩ := hloaded _ rfl
  refine ⟨_, data, src, hnext, ?_, ?_, hpulled, hloaded⟩
  · rw [refillBuffer, if_pos hreach, hstore, Run.ok_bind]
    dsimp only
    rw [hread, Run.ok_bind, hcount]
    rfl
  · exact ⟨hfrom.readFile, hfrom.echoFile, hfrom.wrBuf, hfrom.wrCount, hfrom.echoEnabled, hfrom.preload,
      s.world.readsFrom_nextStray.trans hfrom.world⟩

/-- The supply of a reader with `data` in front of `src`. -/
theorem supply_of_slice {s : Io} {data : List Byte} {src : Source} (hused : s.rdUsed = 0)
    (hcount : s.rdCount = data.length) (hslice : slice s.rdBuf 0 data.length = data)
    (hsource : s.source = src) (hne : data ≠ []) :
    s.rdUsed < s.rdCount ∧ s.supply = (data, src) := by
  have hpos := List.length_pos_iff.mpr hne
  have hlt : s.rdUsed < s.rdCount := by omega
  refine ⟨hlt, ?_⟩
  rw [Io.supply, if_pos hlt, hused, hcount, Nat.sub_zero, hslice, hsource]

theorem Io.supply_of_empty {s : Io} (h : s.rdUsed = s.rdCount) : s.supply = s.source.fill := by
  rw [Io.supply, if_neg (by omega)]

/-- A new token that finds the buffer empty. An empty preload leaves it empty. -/
theorem Ready.fillBuffer {a : Stream' Byte} {s : Io} (h : Ready a s) :
    ∃ s₁, fillBuffer P s = .ok s₁ ∧ Ready a s₁ ∧ s₁.supply = s.supply ∧ s.ReadsFrom s₁ ∧
      (s₁.rdUsed < s₁.rdCount ∨ s₁.preloadData = none ∧ s₁.rdUsed = 0 ∧ s₁.rdCount = 0) := by
  by_cases hempty : s.rdUsed = s.rdCount
  · have hstream : s.source.stream = a := by
      rw [h.source_stream, hempty, Nat.sub_self, Stream'.drop_zero]
    obtain ⟨s₁, data, src, hnext, hread, -, hfrom, hloaded⟩ :=
      readWrapper_loads P (a := a) (s := { s with rdUsed := 0, rdPending := 0 }) h.readFile rfl
        ioBufSize_pos hstream
    obtain ⟨hready, hused, hcount, hslice, hsource⟩ := hloaded _ rfl
    have hcount := hcount.trans (Nat.zero_add _)
    have hnext : s.source.next ioBufSize = (data, src) := hnext
    refine ⟨_, ?_, hready, ?_⟩
    · rw [Nanorl.fillBuffer, if_pos hempty]
      refine (congrArg (fun x => x >>= _) hread).trans ?_
      rw [Run.ok_bind, Nat.zero_add]
      rfl
    · have hfrom₁ : s.ReadsFrom { s₁ with rdCount := 0 + data.length } :=
        ⟨hfrom.readFile, hfrom.echoFile, hfrom.wrBuf, hfrom.wrCount, hfrom.echoEnabled, hfrom.preload,
          hfrom.world⟩
      by_cases hpre : s.source.preload = some []
      · have hnone : s.source.next ioBufSize = ([], { s.source with preload := none }) := by
          simp only [Source.next, hpre]
          rfl
        obtain ⟨rfl, rfl⟩ : data = [] ∧ src = { s.source with preload := none } := by
          simpa using hnext.symm.trans hnone
        refine ⟨?_, hfrom₁, Or.inr ⟨congrArg Source.preload hsource, hused, hcount⟩⟩
        rw [Io.supply_of_empty (hused.trans hcount.symm), hsource, Io.supply_of_empty hempty,
          Source.fill, Source.fill, if_neg (by simp), if_pos hpre]
      · have hne := @Source.next_ne_nil _ ioBufSize_pos s.source hpre
        rw [hnext] at hne
        obtain ⟨hlt, hsup⟩ := supply_of_slice hused hcount hslice hsource hne
        refine ⟨?_, hfrom₁, Or.inl hlt⟩
        rw [hsup, Io.supply_of_empty hempty, Source.fill, if_neg hpre, hnext]
  · have hlt : s.rdUsed < s.rdCount := lt_of_le_of_ne h.used_le hempty
    refine ⟨s, ?_, h, rfl, .refl s, Or.inl hlt⟩
    rw [Nanorl.fillBuffer, if_neg hempty]

/-- The first pull of a token finds something in the buffer, or has put it there. -/
theorem Ready.filled {a : Stream' Byte} {s : Io} (h : Ready a s) :
    ∃ s₁, (Nanorl.fillBuffer P s >>= refillBuffer P) = .ok s₁ ∧ Ready a s₁ ∧
      s₁.rdUsed < s₁.rdCount ∧ s₁.supply = s.supply ∧ s.ReadsFrom s₁ := by
  obtain ⟨s₁, hfill, hready, hsup, hfrom, hcase⟩ := h.fillBuffer P
  have hp := hready.pending
  rw [hfill, Run.ok_bind]
  rcases hcase with hlt | ⟨hpre, hused, hcount⟩
  · refine ⟨s₁, ?_, hready, hlt, hsup, hfrom⟩
    rw [refillBuffer, if_neg (by omega)]
  · obtain ⟨s₂, data, src, hnext, hrefill, hfrom₂, hready₂, hused₂, hcount₂, hslice₂, hsource₂⟩ :=
      hready.refilled P (by omega) ioBufSize_pos
    have hpre' : s₁.source.preload ≠ some [] := by
      rw [Io.source, hpre]
      simp
    have hne := Source.next_ne_nil ioBufSize_pos hpre'
    rw [Nat.sub_zero] at hnext
    rw [hnext] at hne
    obtain ⟨hlt, hsup₂⟩ := supply_of_slice hused₂ (hcount₂.trans (Nat.zero_add _)) hslice₂ hsource₂ hne
    refine ⟨s₂, hrefill, hready₂, hlt, ?_, hfrom.trans hfrom₂⟩
    rw [hsup₂, ← hsup, Io.supply_of_empty (by omega), Source.fill, if_neg hpre', hnext]

/-- What `next_char` does is decided once the buffer is filled. -/
theorem nextChar_filled {s s₁ : Io} (hfill : (fillBuffer P s >>= refillBuffer P) = .ok s₁)
    (hp : s₁.rdPending = 0) (hlt : s₁.rdUsed < s₁.rdCount) : nextChar P s = nextChar P s₁ := by
  have hfill₁ : (fillBuffer P s₁ >>= refillBuffer P) = .ok s₁ := by
    rw [fillBuffer, if_neg (by omega), Run.ok_bind, refillBuffer, if_neg (by omega)]
  have hbind : ∀ s : Io, nextChar P s = (fillBuffer P s >>= refillBuffer P) >>= takeChar :=
    fun s => (bind_assoc _ _ _).symm
  rw [hbind, hbind, hfill, hfill₁]

/-- **One pull in the middle of a token.** The next entry of the stream is handed
out. If the token has reached the end of the buffer, the pending slots are lost. -/
theorem Pulled.nextChar_refill {a : Stream' Byte} {k c : Nat} {s : Io} (h : Pulled a k c s)
    (hpos : 0 < k) (hk : k < ioBufSize) (hreach : s.rdUsed + k = s.rdCount) :
    ∃ s' data src, s.source.next (ioBufSize - k) = (data, src) ∧
      nextChar P s = .ok (a.get k, s') ∧ Pulled a (k + 1) k s' ∧ s.ReadsFrom s' ∧
      s'.rdUsed = 0 ∧ s'.rdCount = k + data.length := by
  have hne := @Source.next_ne_nil _ (by omega : 0 < ioBufSize - k) s.source
    (fun hpre => by have := h.preload hpre; omega)
  obtain ⟨s₁, data, src, hnext, hrefill, hfrom, hpulled, hused, hcount, -, -⟩ := h.refilled P hreach hk
  rw [hnext] at hne
  have hlen : 0 < data.length := List.length_pos_iff.mpr hne
  obtain ⟨hchar, hpulled'⟩ := hpulled.within P (by omega)
  refine ⟨_, data, src, hnext, ?_, hpulled', ?_, hused, hcount⟩
  · have htake : takeChar s₁ = nextChar P s₁ := by
      rw [nextChar, fillBuffer, if_neg (by omega), Run.ok_bind, refillBuffer,
        if_neg (by rw [hpulled.pending]; omega), Run.ok_bind]
    rw [nextChar, fillBuffer, if_neg (by omega), Run.ok_bind, hrefill, Run.ok_bind, htake, hchar]
  · exact ⟨hfrom.readFile, hfrom.echoFile, hfrom.wrBuf, hfrom.wrCount, hfrom.echoEnabled, hfrom.preload,
      hfrom.world⟩

end Reader

end Nanorl
