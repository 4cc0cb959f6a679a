import Nanorl.Lib.Writer
import Nanorl.Sound.Echo

/-!
# Nanorl.Sound.Delivery

The echo buffer of `io.c` as a buffered writer.

`nrl_io_write` and `nrl_io_flush` do to the buffer and the echo file what the writer of
`Lib.Writer` does (`EchoOp.perform_writer`), so its results hold of every sequence of
calls: with complete writes the output is exact as long as no length wraps the counter
(`echo_exact_iff`), and with any outcomes no byte is delivered twice as long as no flush
is cut short (`echo_once`). Which byte a delivered one is, is what the writer says of the
same calls with their bytes numbered (`Io.provenance`).
-/

namespace Nanorl

open Writer (State Outcome Op)

/-! ### The buffer as a writer -/

/-- `IO_BUF_SIZE`, and the range of a `uint32_t`. -/
def echoSizes : Writer.Sizes where
  capacity := ioBufSize
  modulus := 2 ^ 32
  fits := by decide

def WriteResult.outcome : WriteResult → Outcome
  | .complete => .all
  | .short n => .upTo n
  | .failed _ => .none

/-- The echo side seen as a writer. -/
def Io.writer (io : Io) : State Byte where
  pending := slice io.wrBuf 0 io.wrCount
  delivered := io.world.echoed
  outcomes := io.world.writes.map WriteResult.outcome

/-- Echo is enabled and goes to a file. -/
structure Io.EchoOpen (io : Io) : Prop where
  echoFile : io.echoFile ≠ -1
  echoEnabled : io.echoEnabled = true
  wrCount : io.wrCount ≤ ioBufSize

theorem Io.Echoing.echoOpen {io : Io} (h : io.Echoing) : io.EchoOpen :=
  ⟨h.echoFile, h.echoEnabled, h.wrCount⟩

theorem Io.Echoing.writer_complete {io : Io} (h : io.Echoing) : io.writer.Complete := by
  intro o ho
  obtain ⟨r, hr, rfl⟩ := List.mem_map.mp ho
  rw [h.complete r hr]
  rfl

theorem Io.writer_pending (io : Io) : io.writer.pending.length = io.wrCount := length_slice _ _ _

theorem Io.writer_total (io : Io) : io.writer.total = io.output := rfl

/-- `write` takes what the next outcome says, and reports all or something else. -/
theorem World.write_put {w : World} {s : State Byte} (hw : w.writes.map WriteResult.outcome = s.outcomes)
    (data : List Byte) :
    ∃ errno, (w.write data).2 = { w with
        errno
        writes := w.writes.tail
        echoed := w.echoed ++ data.take (s.put data).1 } ∧
      (data ≠ [] → ((w.write data).1 = data.length ↔ (s.put data).1 = data.length)) := by
  have hput : (s.put data).1 =
      (((w.writes.map WriteResult.outcome).head?).getD .all).taken data.length := by
    rw [hw]
    rfl
  rw [hput]
  unfold World.write
  cases hr : w.writes with
  | nil => exact ⟨w.errno, by simp [Outcome.taken], by simp [Outcome.taken]⟩
  | cons r ws =>
    cases r with
    | complete =>
      exact ⟨w.errno, by simp [WriteResult.outcome, Outcome.taken],
        by simp [WriteResult.outcome, Outcome.taken]⟩
    | short n =>
      exact ⟨w.errno, by simp [WriteResult.outcome, Outcome.taken],
        by simp [WriteResult.outcome, Outcome.taken]⟩
    | failed e =>
      refine ⟨e, by simp [WriteResult.outcome, Outcome.taken], fun hne => ?_⟩
      have hpos := List.length_pos_iff.mpr hne
      simp only [List.map_cons, List.head?_cons, Option.getD_some, WriteResult.outcome, Outcome.taken]
      omega

/-- The call ends as the writer's does. -/
def Io.Follows (r : Bool × State Byte) (x : Except Fault (Bool × Io)) : Prop :=
  ∃ io, x = .ok (r.1, io) ∧ io.writer = r.2 ∧ io.EchoOpen

section Calls

variable (P : Platform) {io : Io}

theorem nrlIoFlush_follows (h : io.EchoOpen) : Io.Follows io.writer.flush (nrlIoFlush P io) := by
  unfold nrlIoFlush State.flush
  rw [P.assert_of _ (decide_eq_true h.echoFile), Run.ok_bind]
  have hempty : io.writer.pending = [] ↔ io.wrCount = 0 := by
    rw [← List.length_eq_zero_iff, io.writer_pending]
  by_cases hzero : io.wrCount = 0
  · rw [if_pos hzero, if_pos (hempty.mpr hzero)]
    exact ⟨io, rfl, rfl, h⟩
  · rw [if_neg hzero, if_neg (hempty.not.mpr hzero)]
    obtain ⟨errno, hworld, htaken⟩ := World.write_put (w := io.world) (s := io.writer) rfl io.writer.pending
    have htaken := htaken (hempty.not.mpr hzero)
    rw [io.writer_pending] at htaken
    have hpending : io.writer.pending = slice io.wrBuf 0 io.wrCount := rfl
    rw [hpending] at hworld htaken ⊢
    rw [length_slice]
    dsimp only
    by_cases hall : (io.world.write (slice io.wrBuf 0 io.wrCount)).1 = io.wrCount
    · rw [if_neg (not_not.mpr hall), if_pos (htaken.mp hall)]
      refine ⟨_, rfl, ?_, h.echoFile, h.echoEnabled, Nat.zero_le _⟩
      rw [hworld]
      simp [Io.writer, slice, State.put, List.map_tail]
    · rw [if_pos hall, if_neg (htaken.not.mp hall)]
      refine ⟨_, rfl, ?_, h.echoFile, h.echoEnabled, h.wrCount⟩
      rw [hworld]
      simp [Io.writer, State.put, List.map_tail]

/-- Data that is small has room, or is large. -/
theorem bufferData_follows (h : io.EchoOpen) {data : List Byte}
    (hroom : data.length ≤ ioBufSize → io.wrCount + data.length ≤ ioBufSize) :
    Io.Follows (io.writer.place echoSizes data) (bufferData data io) := by
  unfold bufferData State.place
  by_cases hlarge : data.length > ioBufSize
  · rw [if_pos hlarge, if_pos (show data.length > echoSizes.capacity from hlarge)]
    obtain ⟨errno, hworld, htaken⟩ := World.write_put (w := io.world) (s := io.writer) rfl data
    have hne : data ≠ [] := List.length_pos_iff.mp (by omega)
    refine ⟨{ io with world := (io.world.write data).2 }, ?_, ?_, h.echoFile, h.echoEnabled, h.wrCount⟩
    · simp only [htaken hne]
    · rw [hworld]
      simp [Io.writer, State.put, List.map_tail]
  · have hle := hroom (Nat.le_of_not_lt hlarge)
    rw [if_neg hlarge, if_pos hle, if_neg (show ¬ data.length > echoSizes.capacity from hlarge)]
    refine ⟨_, rfl, ?_, h.echoFile, h.echoEnabled, hle⟩
    simp [Io.writer, slice_memcpy_append]

theorem nrlIoWrite_follows (h : io.EchoOpen) (data : List Byte) :
    Io.Follows (io.writer.write echoSizes data) (nrlIoWrite P data io) := by
  have hcount := h.wrCount
  unfold nrlIoWrite State.write
  rw [if_pos h.echoEnabled, io.writer_pending]
  by_cases hover : (io.wrCount + data.length) % 2 ^ 32 > ioBufSize
  · rw [if_pos hover, if_pos (show _ % echoSizes.modulus > echoSizes.capacity from hover)]
    obtain ⟨io₁, hflush, hwriter, hopen⟩ := nrlIoFlush_follows P h
    rw [hflush, Run.ok_bind]
    dsimp only
    by_cases hflushed : io.writer.flush.1 = true
    · have hzero : io₁.wrCount = 0 := by
        rw [← io₁.writer_pending, hwriter, State.flush_pending hflushed]
        rfl
      rw [if_pos hflushed, if_pos hflushed, ← hwriter]
      exact bufferData_follows hopen fun hle => by omega
    · rw [if_neg hflushed, if_neg hflushed]
      exact ⟨io₁, rfl, hwriter, hopen⟩
  · rw [if_neg hover, if_neg (show ¬ _ % echoSizes.modulus > echoSizes.capacity from hover)]
    refine bufferData_follows h fun hle => ?_
    unfold ioBufSize at *
    omega

end Calls

/-! ### Sequences of calls -/

/-- A call on the echo side, with a length a `uint32_t` holds. -/
inductive EchoOp
  | write (data : List Byte) (fits : data.length < 2 ^ 32)
  | flush

namespace EchoOp

def op : EchoOp → Op Byte
  | write data _ => .write data
  | flush => .flush

def data (op : EchoOp) : List Byte := op.op.data

theorem data_length : ∀ op : EchoOp, op.data.length < 2 ^ 32
  | write _ fits => fits
  | flush => by decide

/-- The call, whatever is done about what it returns. -/
def perform (P : Platform) : EchoOp → Io → Except Fault Io
  | write data _, io => (nrlIoWrite P data io).map Prod.snd
  | flush, io => (nrlIoFlush P io).map Prod.snd

variable (P : Platform)

theorem perform_writer (op : EchoOp) {io : Io} (h : io.EchoOpen) :
    ∃ io', op.perform P io = .ok io' ∧ io'.writer = (io.writer.perform echoSizes op.op).2 ∧
      io'.EchoOpen := by
  have hfollows : ∀ {r : Bool × State Byte} {x : Except Fault (Bool × Io)}, Io.Follows r x →
      ∃ io', x.map Prod.snd = .ok io' ∧ io'.writer = r.2 ∧ io'.EchoOpen := by
    intro r x hx
    obtain ⟨io', rfl, hwriter, hopen⟩ := hx
    exact ⟨io', rfl, hwriter, hopen⟩
  cases op with
  | write data fits => exact hfollows (nrlIoWrite_follows P h data)
  | flush => exact hfollows (nrlIoFlush_follows P h)

/-- **Refinement.** A run of calls ends, and does what the writer does. -/
theorem exec_writer (ops : List EchoOp) {io : Io} (h : io.EchoOpen) :
    ∃ io', Run.exec (perform P) ops io = .ok io' ∧
      io'.writer = io.writer.run echoSizes (ops.map op) ∧ io'.EchoOpen := by
  induction ops generalizing io with
  | nil => exact ⟨io, rfl, rfl, h⟩
  | cons op ops ih =>
    obtain ⟨io₁, hop, hwriter, hopen⟩ := op.perform_writer P h
    obtain ⟨io', hexec, hwriter', hopen'⟩ := ih hopen
    refine ⟨io', Run.exec_cons_ok.mpr ⟨io₁, hop, hexec⟩, ?_, hopen'⟩
    rw [hwriter', hwriter]
    rfl

end EchoOp

/-! ### Complete writes -/

/-- The call keeps the data in order: `wr_count + length` is a `uint32_t`, or nothing
tells the data and the buffer apart in either order. -/
def EchoOp.InOrder (op : EchoOp) (io : Io) : Prop :=
  io.wrCount + op.data.length < 2 ^ 32 ∨
    slice io.wrBuf 0 io.wrCount ++ op.data = op.data ++ slice io.wrBuf 0 io.wrCount

instance (op : EchoOp) (io : Io) : Decidable (op.InOrder io) :=
  inferInstanceAs (Decidable (_ ∨ _))

/-- Behind these calls: the output is all of their data, the counter is within the
buffer, and a flush has left nothing in it. -/
structure Io.Exact (io : Io) (past : List EchoOp) (io' : Io) : Prop where
  output : io'.output = io.output ++ past.flatMap EchoOp.data
  bound : io'.wrCount ≤ ioBufSize
  flushed : past.getLast? = some .flush → io'.wrCount = 0

section Exact

variable {P : Platform} {io : Io}

theorem Io.Echoing.perform (h : io.Echoing) (op : EchoOp) :
    ∃ io', op.perform P io = .ok io' ∧ io'.Echoing ∧ (op = .flush → io'.wrCount = 0) ∧
      (io'.output = io.output ++ op.data ↔ op.InOrder io) := by
  obtain ⟨io', hop, hwriter, hopen⟩ := op.perform_writer P h.echoOpen
  have hcomplete := h.writer_complete.perform (z := echoSizes) op.op
  have hiff : (io.writer.perform echoSizes op.op).2.total = io.writer.total ++ op.data ↔
      io.writer.InOrder echoSizes op.op :=
    h.writer_complete.perform_total_iff (show _ ≤ ioBufSize from io.writer_pending ▸ h.wrCount)
      op.data_length
  rw [← hwriter] at hcomplete hiff
  refine ⟨io', hop, ⟨hopen.echoFile, hopen.echoEnabled, hopen.wrCount, fun r hr => ?_⟩, fun hflush => ?_, ?_⟩
  · have hall := hcomplete r.outcome (List.mem_map_of_mem hr)
    cases r with
    | complete => rfl
    | short n => cases hall
    | failed e => cases hall
  · subst hflush
    rw [← io'.writer_pending, hwriter]
    exact List.length_eq_zero_iff.mpr (State.flush_pending h.writer_complete.flush.1)
  · rw [← io'.writer_total, ← io.writer_total]
    refine hiff.trans ?_
    rw [State.InOrder, State.Counted, io.writer_pending]
    rfl

/-- **Exact and ordered output.** With echo enabled and every write complete, a sequence
of calls faults nowhere and behind each of them everything is where it belongs, exactly if
each call keeps the data in order. -/
theorem echo_exact_iff (h : io.Echoing) (ops : List EchoOp) :
    (∀ past, past <+: ops → ∃ io', Run.exec (EchoOp.perform P) past io = .ok io' ∧
      io.Exact past io') ↔ Run.Guarded (EchoOp.perform P) EchoOp.InOrder ops io := by
  induction ops generalizing io with
  | nil =>
    refine iff_of_true (fun past hpast => ?_) trivial
    obtain rfl := List.prefix_nil.mp hpast
    exact ⟨io, rfl, (List.append_nil _).symm, h.wrCount, fun hlast => by cases hlast⟩
  | cons op ops ih =>
    obtain ⟨io₁, hop, hecho, hflush, hiff⟩ := h.perform (P := P) op
    constructor
    · intro hexact
      have hout : io₁.output = io.output ++ op.data := by
        obtain ⟨io₁', hfirst, hexact₁⟩ := hexact [op] (List.prefix_append [op] ops)
        obtain ⟨_, hop', hnil⟩ := Run.exec_cons_ok.mp hfirst
        obtain rfl := Except.ok.inj (hop.symm.trans hop')
        obtain rfl := Except.ok.inj hnil
        simpa using hexact₁.output
      refine ⟨hiff.mp hout, fun io₂ hio₂ => ?_⟩
      obtain rfl := Except.ok.inj (hop.symm.trans hio₂)
      refine (ih hecho).mp fun past hpast => ?_
      obtain ⟨io', hexec, hexact'⟩ := hexact (op :: past) (List.cons_prefix_cons.mpr ⟨rfl, hpast⟩)
      obtain ⟨_, hop', hrest⟩ := Run.exec_cons_ok.mp hexec
      obtain rfl := Except.ok.inj (hop.symm.trans hop')
      refine ⟨io', hrest, ?_, hexact'.bound, fun hlast => hexact'.flushed ?_⟩
      · rw [hexact'.output, hout, List.flatMap_cons, List.append_assoc]
      · rw [List.getLast?_cons, hlast]
        rfl
    · intro hguarded past hpast
      cases past with
      | nil => exact ⟨io, rfl, (List.append_nil _).symm, h.wrCount, fun hlast => by cases hlast⟩
      | cons op' past =>
        obtain ⟨rfl, hrest⟩ := List.cons_prefix_cons.mp hpast
        obtain ⟨io', hexec, hexact⟩ := (ih hecho).mpr (hguarded.2 io₁ hop) past hrest
        refine ⟨io', Run.exec_cons_ok.mpr ⟨io₁, hop, hexec⟩, ?_, hexact.bound, fun hlast => ?_⟩
        · rw [hexact.output, hiff.mpr hguarded.1, List.flatMap_cons, List.append_assoc]
        · cases past with
          | nil =>
            obtain rfl := Except.ok.inj hexec
            exact hflush (Option.some.inj hlast)
          | cons op'' past => exact hexact.flushed (by rwa [List.getLast?_cons_cons] at hlast)

end Exact

/-- Nothing is buffered, and nothing has been delivered. -/
theorem dumbScreen_echoing : dumbScreen.io.Echoing :=
  ⟨by decide, rfl, by decide, fun r hr => absurd hr List.not_mem_nil⟩

theorem echo_exact_iff_twoBytes :
    ∃ io', Run.exec (EchoOp.perform referencePlatform) [.write (ascii "ab") (by decide), .flush] dumbScreen.io =
        .ok io' ∧
      dumbScreen.io.Exact [.write (ascii "ab") (by decide), .flush] io' := by
  have hordered : Run.Guarded (EchoOp.perform referencePlatform) EchoOp.InOrder
      [EchoOp.write (ascii "ab") (by decide), .flush] dumbScreen.io := by
    decide +kernel
  exact (echo_exact_iff dumbScreen_echoing _).mpr hordered _ (List.prefix_refl _)

/-- A screen with these outcomes of its next writes. -/
def failingScreen (writes : List WriteResult) : Screen :=
  { dumbScreen with io := { dumbScreen.io with world := { idleWorld with writes } } }

/-- The longest data a `uint32_t` can give the length of. -/
def longestWrite : EchoOp :=
  .write (List.replicate (2 ^ 32 - 1) 98) (by rw [List.length_replicate]; omega)

/-- Behind a single buffered byte, it wraps the counter and is delivered first. -/
theorem echo_overtakes :
    ∃ io', Run.exec (EchoOp.perform referencePlatform) [.write [97] (by decide), longestWrite]
        dumbScreen.io = .ok io' ∧
      io'.output = List.replicate (2 ^ 32 - 1) 98 ++ [97] ∧
      ¬ dumbScreen.io.Exact [.write [97] (by decide), longestWrite] io' := by
  obtain ⟨io₁, hfirst, hecho, -, -⟩ := dumbScreen_echoing.perform (P := referencePlatform)
    (.write [97] (by decide))
  have hwriter : io₁.writer = ⟨[97], [], []⟩ := by
    obtain ⟨_, hop, hwriter, -⟩ := EchoOp.perform_writer referencePlatform (.write [97] (by decide))
      dumbScreen_echoing.echoOpen
    obtain rfl := Except.ok.inj (hfirst.symm.trans hop)
    exact hwriter
  obtain ⟨io', hsecond, hwriter', -⟩ := longestWrite.perform_writer referencePlatform hecho.echoOpen
  have hlength : (List.replicate (2 ^ 32 - 1) (98 : Byte)).length = 2 ^ 32 - 1 := List.length_replicate
  have htotal : io'.output = List.replicate (2 ^ 32 - 1) 98 ++ [97] := by
    have hwrapped : (io₁.writer.write echoSizes (List.replicate (2 ^ 32 - 1) 98)).2.total =
        io₁.writer.delivered ++ List.replicate (2 ^ 32 - 1) 98 ++ io₁.writer.pending :=
      hecho.writer_complete.write_total_wrapped
        (show _ ≤ ioBufSize from io₁.writer_pending ▸ hecho.wrCount)
        (by rw [hlength]; decide) (by rw [hlength, hwriter]; decide)
    rw [hwriter] at hwrapped
    rw [← io'.writer_total, hwriter', hwriter]
    exact hwrapped
  refine ⟨io', Run.exec_cons_ok.mpr ⟨io₁, hfirst, Run.exec_cons_ok.mpr ⟨io', hsecond, rfl⟩⟩, htotal,
    fun hexact => ?_⟩
  have hhead := congrArg List.head? (htotal.symm.trans hexact.output)
  rw [List.head?_append, List.head?_replicate, if_neg (by decide)] at hhead
  cases hhead

/-! ### Any outcomes -/

/-- The bytes delivered by these calls and what was delivered before, each with its number
among all bytes that have been passed. -/
def Io.provenance (io : Io) (ops : List EchoOp) : List (Byte × Nat) :=
  io.writer.provenance echoSizes (ops.map EchoOp.op)

/-- Behind these calls: the bytes delivered are bytes that were passed, each at most once and
in order. -/
structure Io.Once (io : Io) (past : List EchoOp) (io' : Io) : Prop where
  delivered : io'.world.echoed = (io.provenance past).map Prod.fst
  passed : (io.provenance past).Sublist (io.output ++ past.flatMap EchoOp.data).zipIdx
  increasing : ((io.provenance past).map Prod.snd).Pairwise (· < ·)

/-- `wr_count + length` is a `uint32_t`, and the next write of a buffer that goes out takes
all of it or nothing. -/
def EchoOp.Safe (op : EchoOp) (io : Io) : Prop :=
  io.wrCount + op.data.length < 2 ^ 32 ∧
    (op = .flush ∨ io.wrCount + op.data.length > ioBufSize →
      ∀ k, io.world.writes.head? = some (.short k) → k = 0 ∨ io.wrCount ≤ k)

theorem EchoOp.Safe.writer {op : EchoOp} {io : Io} (h : op.Safe io) :
    io.writer.Safe echoSizes op.op := by
  obtain ⟨hcounted, hwhole⟩ := h
  refine ⟨show io.writer.pending.length + _ < _ from io.writer_pending.symm ▸ hcounted, fun hflushes => ?_⟩
  have hshort := hwhole (by
    cases op with
    | write data fits => exact .inr (by rw [← io.writer_pending]; exact hflushes)
    | flush => exact .inl rfl)
  unfold State.Whole State.outcome
  rw [io.writer_pending]
  simp only [Io.writer]
  cases hw : io.world.writes with
  | nil => exact .inr rfl
  | cons r ws =>
    cases r with
    | complete => exact .inr rfl
    | failed e => exact .inl rfl
    | short k =>
      rcases hshort k (by rw [hw]; rfl) with rfl | hle
      · exact .inl (Nat.zero_min _)
      · exact .inr (Nat.min_eq_right hle)

section Once

variable {P : Platform} {io : Io}

theorem EchoOp.along_writer {ops : List EchoOp} (h : io.EchoOpen)
    (hsafe : Run.Guarded (EchoOp.perform P) EchoOp.Safe ops io) :
    State.Along echoSizes (fun op s => s.Safe echoSizes op) (ops.map EchoOp.op) io.writer := by
  induction ops generalizing io with
  | nil => trivial
  | cons op ops ih =>
    obtain ⟨io₁, hop, hwriter, hopen⟩ := op.perform_writer P h
    refine ⟨hsafe.1.writer, ?_⟩
    rw [← hwriter]
    exact ih hopen (hsafe.2 io₁ hop)

/-- **A short write repeats nothing** in a run whose flushes are taken whole or not at all:
whatever the outcomes of the other writes and whatever the calls return, every byte is
delivered at most once and in order behind each call. -/
theorem echo_once (h : io.EchoOpen) {ops : List EchoOp}
    (hsafe : Run.Guarded (EchoOp.perform P) EchoOp.Safe ops io) :
    ∀ past, past <+: ops → ∃ io', Run.exec (EchoOp.perform P) past io = .ok io' ∧ io.Once past io' := by
  intro past hpast
  obtain ⟨rest, rfl⟩ := hpast
  obtain ⟨io', hexec, hwriter, -⟩ := EchoOp.exec_writer P past h
  have halong := EchoOp.along_writer h (Run.guarded_append.mp hsafe).1
  refine ⟨io', hexec, ?_, ?_, State.provenance_increasing echoSizes halong⟩
  · exact (congrArg State.delivered hwriter).trans (State.provenance_fst echoSizes _ _).symm
  · have hsub := State.provenance_sublist echoSizes halong
    rwa [List.flatMap_map] at hsub

/-- A flush that is cut short in the middle is repeated from its first byte. -/
theorem flush_repeats {k : Nat} {ws : List WriteResult} (hk : 0 < k) (hlt : k < io.wrCount)
    (hwrites : io.world.writes = .short k :: .complete :: ws) :
    ¬ ((io.provenance [.flush, .flush]).map Prod.snd).Pairwise (· < ·) :=
  State.provenance_repeats echoSizes hk (io.writer_pending.symm ▸ hlt)
    (congrArg (List.map WriteResult.outcome) hwrites)

end Once

theorem echo_once_failedFlush :
    ∃ io', Run.exec (EchoOp.perform referencePlatform) [EchoOp.write (ascii "ab") (by decide), .flush, .flush]
        (failingScreen [.failed .eintr]).io = .ok io' ∧
      (failingScreen [.failed .eintr]).io.Once [EchoOp.write (ascii "ab") (by decide), .flush, .flush] io' := by
  have hsafe : Run.Guarded (EchoOp.perform referencePlatform) EchoOp.Safe
      [EchoOp.write (ascii "ab") (by decide), .flush, .flush] (failingScreen [.failed .eintr]).io := by
    refine ⟨⟨by decide, fun hflushes => ?_⟩, fun io₁ h₁ => ?_⟩
    · exact absurd (hflushes.resolve_left (fun h => by cases h)) (by decide)
    obtain rfl := Except.ok.inj h₁
    refine ⟨⟨by decide, fun _ k hk => by cases hk⟩, fun io₂ h₂ => ?_⟩
    obtain rfl := Except.ok.inj h₂
    exact ⟨⟨by decide, fun _ k hk => by cases hk⟩, fun _ _ => trivial⟩
  exact echo_once ⟨by decide, rfl, by decide⟩ hsafe _ List.prefix_rfl

/-- The first flush delivers one byte of two, the second one both. -/
theorem echo_repeats :
    (Run.exec (EchoOp.perform referencePlatform) [.write (ascii "ab") (by decide), .flush, .flush]
      (failingScreen [.short 1]).io).map (·.world.echoed) = .ok (ascii "aab") ∧
    ¬ (((failingScreen [.short 1]).io.provenance
      [.write (ascii "ab") (by decide), .flush, .flush]).map Prod.snd).Pairwise (· < ·) := by
  decide +kernel

end Nanorl
