import Nanorl.Sound.Echo
import Nanorl.Sound.Teardown

/-!
# Nanorl.Sound.Calls

The system calls of a session.

`Makes` are the calls that lead from one world to another, with the errors of those that
have failed: `errno` is the last of them. Everything a session does between two points is
such calls (`Io.Reaches.frame`), and output that succeeds is written and leaves `errno`.
A ghost of the reader keeps beside each entry of `rd_buf` the read that has put it there,
if that read has failed (`Traced`), so that a character can be traced back to it.
-/

namespace Nanorl

open Run (Ends Same)

/-! ### System calls -/

/-- One system call, and whether it has succeeded. Meeting stray bytes is no call. -/
inductive World.SysCall : World → Bool → World → Prop
  | read (w : World) (count : Nat) : SysCall w (w.read count).1.isSome (w.read count).2
  | write (w : World) (data : List Byte) : SysCall w (decide (0 ≤ (w.write data).1)) (w.write data).2
  | winsize (w : World) : SysCall w w.winsize.1.isSome w.winsize.2
  | isatty (w : World) : SysCall w w.isatty.1 w.isatty.2
  | tcgetattr (w : World) : SysCall w w.tcgetattr.1.isSome w.tcgetattr.2
  | tcsetattr (w : World) (attrs : Termios) : SysCall w (w.tcsetattr attrs).1 (w.tcsetattr attrs).2
  | sigaction (w : World) (sig : Signal) (act : SigAction) :
      SysCall w (w.sigaction sig act).1.isSome (w.sigaction sig act).2
  | stray (w : World) : SysCall w true w.nextStray

/-- The system calls that lead from one world to another, with the errors of those that
have failed, in their order. -/
inductive World.Makes (w : World) : List Errno → World → Prop
  | nil : Makes w [] w
  | success {w₁ w₂ : World} {errors : List Errno} :
      Makes w errors w₁ → World.SysCall w₁ true w₂ → Makes w errors w₂
  | failure {w₁ w₂ : World} {errors : List Errno} :
      Makes w errors w₁ → World.SysCall w₁ false w₂ → Makes w (errors ++ [w₂.errno]) w₂

/-- Of the system calls from `w` to `w'`, the last that has failed has failed with `error`. -/
def World.LastFailure (w : World) (error : Errno) (w' : World) : Prop :=
  ∃ errors, w.Makes (errors ++ [error]) w'

/-- System calls lead from `w` to `w'`. -/
def World.Reaches (w w' : World) : Prop := ∃ errors, w.Makes errors w'

section SysCalls

variable {w w₁ w₂ : World} {errors errors' : List Errno}

theorem World.call_errno (w : World) (h : w.call.1 = true) : w.call.2.errno = w.errno := by
  unfold World.call at h ⊢
  split at h <;> simp_all

theorem World.call_echoed (w : World) : w.call.2.echoed = w.echoed := by
  unfold World.call
  split <;> rfl

/-- A call that succeeds leaves `errno`. -/
theorem World.SysCall.errno (h : w.SysCall true w₁) : w₁.errno = w.errno := by
  generalize hok : true = ok at h
  cases h with
  | read count =>
    unfold World.read at hok ⊢
    split at hok <;> simp_all
  | write data =>
    unfold World.write at hok ⊢
    split at hok <;> simp_all
  | winsize =>
    unfold World.winsize at hok ⊢
    split at hok <;> simp_all
  | isatty =>
    unfold World.isatty at hok ⊢
    cases htty : w.isTty with
    | true => rfl
    | false =>
      rw [htty] at hok
      cases hok
  | tcgetattr =>
    have hcall := w.call_errno
    unfold World.tcgetattr at hok ⊢
    generalize w.call = r at hok hcall
    obtain ⟨_ | _, w₁⟩ := r
    · cases hok
    · exact hcall rfl
  | tcsetattr attrs =>
    have hcall := w.call_errno
    unfold World.tcsetattr at hok ⊢
    generalize w.call = r at hok hcall
    obtain ⟨_ | _, w₁⟩ := r
    · cases hok
    · exact hcall rfl
  | sigaction sig act =>
    have hcall := w.call_errno
    unfold World.sigaction at hok ⊢
    generalize w.call = r at hok hcall
    obtain ⟨_ | _, w₁⟩ := r
    · cases hok
    · exact hcall rfl
  | stray => rfl

/-- `errno` is the error of the last call that has failed. -/
theorem World.Makes.errno (h : w.Makes errors w₁) : w₁.errno = errors.getLastD w.errno := by
  induction h with
  | nil => rfl
  | success _ hcall ih => rw [hcall.errno, ih]
  | failure => simp

theorem World.Makes.trans (h : w.Makes errors w₁) (h' : w₁.Makes errors' w₂) :
    w.Makes (errors ++ errors') w₂ := by
  induction h' with
  | nil => rwa [List.append_nil]
  | success _ hcall ih => exact ih.success hcall
  | failure _ hcall ih =>
    rw [← List.append_assoc]
    exact ih.failure hcall

theorem World.Reaches.refl (w : World) : w.Reaches w := ⟨[], .nil⟩

theorem World.Reaches.trans (h : w.Reaches w₁) (h' : w₁.Reaches w₂) : w.Reaches w₂ := by
  obtain ⟨errors, h⟩ := h
  obtain ⟨errors', h'⟩ := h'
  exact ⟨errors ++ errors', h.trans h'⟩

theorem World.SysCall.reaches {ok : Bool} (h : w.SysCall ok w₁) : w.Reaches w₁ := by
  cases ok with
  | true => exact ⟨[], World.Makes.nil.success h⟩
  | false => exact ⟨[w₁.errno], World.Makes.nil.failure h⟩

theorem World.LastFailure.errno {error : Errno} (h : w.LastFailure error w₁) : w₁.errno = error := by
  obtain ⟨errors, h⟩ := h
  rw [h.errno]
  simp

/-- Either no call has failed, or `errno` is the error of the last one that has. -/
theorem World.Reaches.cases (h : w.Reaches w₁) :
    w₁.errno = w.errno ∨ w.LastFailure w₁.errno w₁ := by
  obtain ⟨errors, h⟩ := h
  have herrno := h.errno
  rcases List.eq_nil_or_concat errors with rfl | ⟨front, error, rfl⟩
  · exact .inl herrno
  · refine .inr ⟨front, ?_⟩
    have hlast : w₁.errno = error := by simpa using herrno
    rw [hlast]
    simpa using h

/-- What the echo file has received it keeps. -/
theorem World.SysCall.echoed {ok : Bool} (h : w.SysCall ok w₁) : w.echoed <+: w₁.echoed := by
  cases h with
  | read count =>
    unfold World.read
    split <;> exact List.prefix_rfl
  | write data =>
    unfold World.write
    split
    · exact List.prefix_append _ _
    · exact List.prefix_append _ _
    · exact List.prefix_append _ _
    · exact List.prefix_rfl
  | winsize =>
    unfold World.winsize
    split <;> exact List.prefix_rfl
  | isatty =>
    unfold World.isatty
    split <;> exact List.prefix_rfl
  | tcgetattr =>
    have hcall := w.call_echoed
    unfold World.tcgetattr
    generalize w.call = r at hcall
    obtain ⟨_ | _, w₁⟩ := r <;> exact hcall ▸ List.prefix_rfl
  | tcsetattr attrs =>
    have hcall := w.call_echoed
    unfold World.tcsetattr
    generalize w.call = r at hcall
    obtain ⟨_ | _, w₁⟩ := r <;> exact hcall ▸ List.prefix_rfl
  | sigaction sig act =>
    have hcall := w.call_echoed
    unfold World.sigaction
    generalize w.call = r at hcall
    obtain ⟨_ | _, w₁⟩ := r <;> exact hcall ▸ List.prefix_rfl
  | stray => exact List.prefix_rfl

theorem World.Reaches.echoed (h : w.Reaches w₁) : w.echoed <+: w₁.echoed := by
  obtain ⟨errors, h⟩ := h
  induction h with
  | nil => exact List.prefix_rfl
  | success _ hcall ih => exact ih.trans hcall.echoed
  | failure _ hcall ih => exact ih.trans hcall.echoed

end SysCalls

/-! ### The read behind a character -/

/-- The data of `io.c`, and for each entry of `rd_buf` that is an end of file in place of the
bytes of a `read` that has failed, the world behind that `read`. -/
structure Traced where
  io : Io
  failed : Nat → Option World

/-- The world behind the `read` of `read_wrapper`, if it fails. -/
def Io.failedRead (s : Io) (count : Nat) : Option World :=
  match s.preloadData, s.world.read count with
  | none, (none, world) => some world
  | _, _ => none

section Traced

variable (P : Platform)

def Traced.readWrapper (start count : Nat) (m : Traced) : Except Fault (Nat × Traced) := do
  let (bytes, io) ← Nanorl.readWrapper P start count m.io
  let failed := memcpy m.failed start (List.replicate bytes (m.io.failedRead count))
  pure (bytes, { io, failed })

def Traced.fillBuffer (m : Traced) : Except Fault Traced :=
  if m.io.rdUsed = m.io.rdCount then do
    let (bytes, m) ← Traced.readWrapper P 0 ioBufSize { m with io := { m.io with rdUsed := 0, rdPending := 0 } }
    pure { m with io := { m.io with rdCount := bytes } }
  else .ok m

/-- What the refill's `memmove` moves along with the entries. -/
def Traced.behindCount (m : Traced) : List (Option World) :=
  (List.range m.io.rdPending).map fun i =>
    if m.io.rdCount + i < ioBufSize then m.failed (m.io.rdCount + i) else none

def Traced.refillBuffer (m : Traced) : Except Fault Traced :=
  if m.io.rdUsed + m.io.rdPending = m.io.rdCount then do
    let io ← m.io.store 0 m.io.behindCount
    let io := { io with rdCount := io.rdPending, rdUsed := 0, world := io.world.nextStray }
    let (bytes, m) ← Traced.readWrapper P io.rdCount (ioBufSize - io.rdCount)
      { io, failed := memcpy m.failed 0 m.behindCount }
    pure { m with io := { m.io with rdCount := m.io.rdCount + bytes } }
  else .ok m

/-- `next_char`, and the failed read behind the character. -/
def Traced.nextChar (m : Traced) : Except Fault (Byte × Option World × Traced) := do
  let m ← Traced.fillBuffer P m
  let m ← Traced.refillBuffer P m
  let (byte, io) ← takeChar m.io
  pure (byte, m.failed (m.io.rdUsed + m.io.rdPending), { m with io })

/-- `next_char` as the parser calls it. -/
def Traced.nextByte (m : Traced) : Except Fault (Byte × Traced) :=
  (Traced.nextChar P m).map fun r => (r.1, r.2.2)

def Traced.nextChars : Nat → Traced → Except Fault (List Byte × Traced)
  | 0, m => .ok ([], m)
  | count + 1, m => do
      let (byte, m) ← Traced.nextByte P m
      let (bytes, m) ← Traced.nextChars count m
      pure (byte :: bytes, m)

/-- `next_uchar`, and the failed read behind the first byte. -/
def Traced.nextUchar (m : Traced) : Except Fault (Uchar × Option World × Traced) := do
  let (lead, cause, m) ← Traced.nextChar P m
  let (bytes, m) ← Traced.nextChars P (P.utf8Inspect lead).following m
  let (consumed, uc) := P.utf8ParseUchar (ucharBuffer (lead :: bytes))
  if consumed = 0 then
    pure (unicodeErrorChar, cause, { m with io := { m.io with rdUsed := m.io.rdUsed + 1, rdPending := 0 } })
  else
    pure (uc, cause, { m with io := { m.io with rdUsed := m.io.rdUsed + consumed, rdPending := 0 } })

def Traced.fillUnparsed (m : Traced) : Except Fault Traced :=
  if m.io.rdCount = m.io.rdUsed then do
    let (bytes, m) ← Traced.readWrapper P 0 ioBufSize m
    pure { m with io := { m.io with rdCount := bytes, rdUsed := 0 } }
  else .ok m

/-- `nrl_io_read`, and the failed read behind the character it stands for, if it is one. -/
def Traced.nrlIoRead (root : DfaNode) (buffer : InputBuf) (m : Traced) :
    Except Fault ((InputType × InputBuf) × Option World × Traced) := do
  let (result, escape, m) ← nrlDfaParse (Traced.nextByte P) root buffer.escape m
  let buffer := { buffer with escape }
  if result ≠ .empty then
    let m := { m with io := { m.io with rdUsed := m.io.rdUsed + m.io.rdPending, rdPending := 0 } }
    let buffer := { buffer with more := decide (m.io.rdUsed < m.io.rdCount) }
    pure ((if result = .custom then .customEscape else .escape, buffer), none, m)
  else
    let m ← Traced.fillUnparsed P m
    let (uc, cause, m) ← Traced.nextUchar P { m with io := { m.io with rdPending := 0 } }
    let read := classify uc { buffer with more := decide (m.io.rdUsed < m.io.rdCount) }
    pure (read, cause, m)

end Traced

/-! ### The ghost follows the reader -/

/-- Calls lead from behind every failed read of the record to the present. -/
def Traced.Sound (m : Traced) : Prop := ∀ i w, m.failed i = some w → w.Reaches m.io.world

/-- From `m` on, the reader has come to `io` and the ghost to `m'`. -/
structure Traced.Follows (m : Traced) (io : Io) (m' : Traced) : Prop where
  io : m'.io = io
  reaches : m.io.world.Reaches m'.io.world
  sound : m'.Sound

/-- They have come to the same result. -/
def Traced.Shows {α : Type} (m : Traced) (r : α × Io) (r' : α × Traced) : Prop :=
  r'.1 = r.1 ∧ m.Follows r.2 r'.2

section Follows

variable (P : Platform) {m : Traced}

theorem Io.store_reaches (start : Nat) (data : List Byte) (s : Io) :
    Ends (fun _ => True) (fun s' => s'.world = s.world) (s.store start data) := by
  unfold Io.store
  split
  · exact .ok rfl
  · exact .error trivial

theorem readWrapper_reaches (start count : Nat) (s : Io) :
    Ends (fun _ => True) (fun r => s.world.Reaches r.2.world ∧
      ∀ w, s.failedRead count = some w → r.2.world = w) (readWrapper P start count s) := by
  unfold readWrapper Io.failedRead
  refine (Ends.any _).bind fun _ _ => (Ends.any _).bind fun _ _ => ?_
  cases hpreload : s.preloadData with
  | some preload =>
    dsimp only
    split
    · exact (s.store_reaches start _).bind fun s₁ h => .ok ⟨h ▸ .refl s.world, nofun⟩
    · exact (s.store_reaches start _).bind fun s₁ h => .ok ⟨h ▸ .refl s.world, nofun⟩
  | none =>
    have hread := World.SysCall.reaches (.read s.world count)
    dsimp only
    generalize s.world.read count = result at hread
    obtain ⟨_ | _ | _, world⟩ := result
    · refine (Io.store_reaches start _ _).bind fun s₁ h => .ok ⟨h ▸ hread, fun w hw => ?_⟩
      exact h.trans (Option.some.inj hw)
    · exact (Io.store_reaches start _ _).bind fun s₁ h => .ok ⟨h ▸ hread, nofun⟩
    · exact (Io.store_reaches start _ _).bind fun s₁ h => .ok ⟨h ▸ hread, nofun⟩

theorem Traced.readWrapper_follows (hm : m.Sound) (start count : Nat) :
    Same m.Shows (Nanorl.readWrapper P start count m.io) (Traced.readWrapper P start count m) := by
  unfold Traced.readWrapper
  have hreaches := readWrapper_reaches P start count m.io
  generalize Nanorl.readWrapper P start count m.io = x at hreaches
  cases x with
  | error f => exact .error f
  | ok r =>
    obtain ⟨hworld, hfailed⟩ := hreaches.of_ok rfl
    refine .ok ⟨rfl, rfl, hworld, fun i w hi => ?_⟩
    dsimp only at hi ⊢
    rcases memcpy_mem m.failed start (List.replicate r.1 (m.io.failedRead count)) i with hnew | hold
    · rw [hi] at hnew
      rw [hfailed w (List.eq_of_mem_replicate hnew).symm]
      exact .refl w
    · rw [hi] at hold
      exact (hm i w hold.symm).trans hworld

theorem Traced.fillBuffer_follows (hm : m.Sound) :
    Same m.Follows (Nanorl.fillBuffer P m.io) (Traced.fillBuffer P m) := by
  unfold Nanorl.fillBuffer Traced.fillBuffer
  split
  · have hstart : Traced.Sound { m with io := { m.io with rdUsed := 0, rdPending := 0 } } := hm
    refine (Traced.readWrapper_follows P hstart 0 ioBufSize).bind fun r r' hr => ?_
    obtain ⟨bytes, io⟩ := r
    obtain ⟨_, m'⟩ := r'
    obtain ⟨rfl, rfl, hreaches, hsound⟩ := hr
    exact .ok ⟨rfl, hreaches, hsound⟩
  · exact .ok ⟨rfl, .refl _, hm⟩

theorem Traced.behindCount_sound (hm : m.Sound) {w : World} (h : some w ∈ m.behindCount) :
    w.Reaches m.io.world := by
  obtain ⟨i, -, hi⟩ := List.mem_map.mp h
  split at hi
  · exact hm _ w hi
  · cases hi

theorem Traced.refillBuffer_follows (hm : m.Sound) :
    Same m.Follows (Nanorl.refillBuffer P m.io) (Traced.refillBuffer P m) := by
  unfold Nanorl.refillBuffer Traced.refillBuffer
  split
  · have hstore := (Same.refl (Q := Eq) (fun _ => rfl) (m.io.store 0 m.io.behindCount)).and_left
      (Io.store_reaches 0 m.io.behindCount m.io)
    refine hstore.bind fun io _ h => ?_
    obtain ⟨rfl, hworld⟩ := h
    have hstray : m.io.world.Reaches io.world.nextStray := by
      rw [← hworld]
      exact (World.SysCall.stray io.world).reaches
    have hstart : Traced.Sound
        { io := { io with rdCount := io.rdPending, rdUsed := 0, world := io.world.nextStray }
          failed := memcpy m.failed 0 m.behindCount } := by
      intro i w hi
      dsimp only at hi ⊢
      refine World.Reaches.trans ?_ hstray
      rcases memcpy_mem m.failed 0 m.behindCount i with hnew | hold
      · rw [hi] at hnew
        exact Traced.behindCount_sound hm hnew
      · rw [hi] at hold
        exact hm i w hold.symm
    refine (Traced.readWrapper_follows P hstart io.rdPending (ioBufSize - io.rdPending)).bind fun r r' hr => ?_
    obtain ⟨bytes, io₁⟩ := r
    obtain ⟨_, m'⟩ := r'
    obtain ⟨rfl, rfl, hreaches, hsound⟩ := hr
    exact .ok ⟨rfl, hstray.trans hreaches, hsound⟩
  · exact .ok ⟨rfl, .refl _, hm⟩

theorem Traced.nextChar_follows (hm : m.Sound) :
    Same (fun r r' => r'.1 = r.1 ∧ (∀ w, r'.2.1 = some w → w.Reaches r'.2.2.io.world) ∧ m.Follows r.2 r'.2.2)
      (Nanorl.nextChar P m.io) (Traced.nextChar P m) := by
  unfold Nanorl.nextChar Traced.nextChar
  refine (Traced.fillBuffer_follows P hm).bind fun io₁ m₁ h₁ => ?_
  obtain ⟨rfl, hreaches₁, hsound₁⟩ := h₁
  refine (Traced.refillBuffer_follows P hsound₁).bind fun io₂ m₂ h₂ => ?_
  obtain ⟨rfl, hreaches₂, hsound₂⟩ := h₂
  unfold takeChar
  split
  · exact .ok ⟨rfl, fun w hw => hsound₂ _ w hw, rfl, hreaches₁.trans hreaches₂, hsound₂⟩
  · exact .error _

theorem Traced.nextByte_follows (hm : m.Sound) :
    Same m.Shows (Nanorl.nextChar P m.io) (Traced.nextByte P m) := by
  unfold Traced.nextByte
  have h := Traced.nextChar_follows P hm
  generalize Nanorl.nextChar P m.io = x at h
  generalize Traced.nextChar P m = y at h
  cases h with
  | error f => exact .error f
  | ok hr => exact .ok ⟨hr.1, hr.2.2⟩

theorem Traced.nextChars_follows (count : Nat) (hm : m.Sound) :
    Same m.Shows (Nanorl.nextChars P count m.io) (Traced.nextChars P count m) := by
  induction count generalizing m with
  | zero => exact .ok ⟨rfl, rfl, .refl _, hm⟩
  | succ count ih =>
    refine (Traced.nextByte_follows P hm).bind fun r r' hr => ?_
    obtain ⟨byte, io⟩ := r
    obtain ⟨_, m₁⟩ := r'
    obtain ⟨rfl, rfl, hreaches₁, hsound₁⟩ := hr
    refine (ih hsound₁).bind fun r r' hr => ?_
    obtain ⟨bytes, io₁⟩ := r
    obtain ⟨_, m₂⟩ := r'
    obtain ⟨rfl, h₂⟩ := hr
    exact .ok ⟨rfl, h₂.io, hreaches₁.trans h₂.reaches, h₂.sound⟩

theorem Traced.nextUchar_follows (hm : m.Sound) :
    Same (fun r r' => r'.1 = r.1 ∧ (∀ w, r'.2.1 = some w → w.Reaches r'.2.2.io.world) ∧ m.Follows r.2 r'.2.2)
      (Nanorl.nextUchar P m.io) (Traced.nextUchar P m) := by
  unfold Nanorl.nextUchar Traced.nextUchar
  refine (Traced.nextChar_follows P hm).bind fun r r' hr => ?_
  obtain ⟨lead, io₁⟩ := r
  obtain ⟨_, cause, m₁⟩ := r'
  obtain ⟨rfl, hcause, rfl, hreaches₁, hsound₁⟩ := hr
  refine (Traced.nextChars_follows P _ hsound₁).bind fun r r' hr => ?_
  obtain ⟨bytes, io₂⟩ := r
  obtain ⟨_, m₂⟩ := r'
  obtain ⟨rfl, rfl, hreaches₂, hsound₂⟩ := hr
  dsimp only
  split
  · exact .ok ⟨rfl, fun w hw => (hcause w hw).trans hreaches₂, rfl, hreaches₁.trans hreaches₂, hsound₂⟩
  · exact .ok ⟨rfl, fun w hw => (hcause w hw).trans hreaches₂, rfl, hreaches₁.trans hreaches₂, hsound₂⟩

theorem Traced.fillUnparsed_follows (hm : m.Sound) :
    Same m.Follows (Nanorl.fillUnparsed P m.io) (Traced.fillUnparsed P m) := by
  unfold Nanorl.fillUnparsed Traced.fillUnparsed
  split
  · refine (Traced.readWrapper_follows P hm 0 ioBufSize).bind fun r r' hr => ?_
    obtain ⟨bytes, io⟩ := r
    obtain ⟨_, m₁⟩ := r'
    obtain ⟨rfl, rfl, hreaches, hsound⟩ := hr
    exact .ok ⟨rfl, hreaches, hsound⟩
  · exact .ok ⟨rfl, .refl _, hm⟩

/-- The ghost reads what the reader reads. -/
theorem Traced.nrlIoRead_follows (root : DfaNode) (buffer : InputBuf) (hm : m.Sound) :
    Same (fun r r' => r'.1 = (r.1, r.2.1) ∧ (∀ w, r'.2.1 = some w → w.Reaches r'.2.2.io.world) ∧
        m.Follows r.2.2 r'.2.2)
      (Nanorl.nrlIoRead P root buffer m.io) (Traced.nrlIoRead P root buffer m) := by
  have hparse : Same (fun r r' => r'.1 = r.1 ∧ r'.2.1 = r.2.1 ∧ m.Follows r.2.2 r'.2.2)
      (nrlDfaParse (Nanorl.nextChar P) root buffer.escape m.io)
      (nrlDfaParse (Traced.nextByte P) root buffer.escape m) := by
    refine nrlDfaParse_same (R := m.Follows) (fun io m₁ h => ?_) root buffer.escape ⟨rfl, .refl _, hm⟩
    obtain ⟨rfl, hreaches, hsound⟩ := h
    refine (Traced.nextByte_follows P hsound).mono fun _ _ h => ?_
    exact ⟨h.1, h.2.io, hreaches.trans h.2.reaches, h.2.sound⟩
  unfold Nanorl.nrlIoRead Traced.nrlIoRead
  refine hparse.bind fun r r' hr => ?_
  obtain ⟨result, escape, io₁⟩ := r
  obtain ⟨_, _, m₁⟩ := r'
  obtain ⟨rfl, rfl, rfl, hreaches₁, hsound₁⟩ := hr
  dsimp only
  split
  · exact .ok ⟨rfl, nofun, rfl, hreaches₁, hsound₁⟩
  · refine (Traced.fillUnparsed_follows P hsound₁).bind fun io₂ m₂ h₂ => ?_
    obtain ⟨rfl, hreaches₂, hsound₂⟩ := h₂
    have hstart : Traced.Sound { m₂ with io := { m₂.io with rdPending := 0 } } := hsound₂
    refine (Traced.nextUchar_follows P hstart).bind fun r r' hr => ?_
    obtain ⟨uc, io₃⟩ := r
    obtain ⟨_, cause, m₃⟩ := r'
    obtain ⟨rfl, hcause, rfl, hreaches₃, hsound₃⟩ := hr
    exact .ok ⟨rfl, hcause, rfl, hreaches₁.trans (hreaches₂.trans hreaches₃), hsound₃⟩

end Follows

/-! ### The calls of a session -/

/-- System calls lead from one to the other. -/
def Io.Reaches (io io' : Io) : Prop := io.world.Reaches io'.world

theorem Io.Reaches.of_world {io io' : Io} (h : io'.world = io.world) : io.Reaches io' := by
  rw [Io.Reaches, h]
  exact .refl _

section Frame

variable (P : Platform)

theorem nrlIoFlush_reaches (io : Io) : Ends (fun _ => True) (fun r => io.Reaches r.2) (nrlIoFlush P io) := by
  unfold nrlIoFlush
  refine (Ends.any _).bind fun _ _ => ?_
  have hwrite := World.SysCall.reaches (.write io.world (slice io.wrBuf 0 io.wrCount))
  split
  · exact .ok (.of_world rfl)
  · dsimp only
    split <;> exact .ok hwrite

theorem bufferData_reaches (data : List Byte) (io : Io) :
    Ends (fun _ => True) (fun r => io.Reaches r.2) (bufferData data io) := by
  unfold bufferData
  split
  · exact .ok (World.SysCall.reaches (.write io.world data))
  · split
    · exact .ok (.of_world rfl)
    · exact .error trivial

theorem nrlIoWrite_reaches (data : List Byte) (io : Io) :
    Ends (fun _ => True) (fun r => io.Reaches r.2) (nrlIoWrite P data io) := by
  unfold nrlIoWrite
  split
  · split
    · refine (nrlIoFlush_reaches P io).bind fun r hflush => ?_
      obtain ⟨flushed, io₁⟩ := r
      cases flushed with
      | false => exact .ok hflush
      | true => exact (bufferData_reaches data io₁).mono fun _ => hflush.trans
    · exact bufferData_reaches data io
  · exact .ok (.of_world rfl)

theorem Io.Reaches.frame : Io.Frame P Io.Reaches where
  refl := fun io => .refl io.world
  trans := World.Reaches.trans
  write := nrlIoWrite_reaches P
  flush := nrlIoFlush_reaches P
  rawRead := fun size io => by
    unfold nrlIoRawRead
    refine (Ends.any _).bind fun _ _ => (Ends.any _).bind fun _ _ => .ok ?_
    exact World.SysCall.reaches (.read io.world size)
  winsize := fun io => World.SysCall.reaches (.winsize io.world)
  read := fun root buffer io => by
    have hfollows := Traced.nrlIoRead_follows P root buffer
      (m := { io, failed := fun _ => none }) (fun _ _ hi => nomatch hi)
    refine ⟨fun hread => ?_, fun _ => trivial⟩
    obtain ⟨_, -, -, -, h⟩ := hfollows.of_ok hread
    have hio := h.io
    exact hio ▸ h.reaches

end Frame

/-! ### Setting up -/

theorem setSignals_reaches (chain : List (Signal × SigAction)) (p : Process) :
    p.world.Reaches (setSignals chain p).2.world := by
  induction chain generalizing p with
  | nil => exact .refl p.world
  | cons item chain ih =>
    have hcall := World.SysCall.reaches (.sigaction p.world item.1 item.2)
    unfold setSignals
    generalize p.world.sigaction item.1 item.2 = r at hcall
    obtain ⟨_ | old, world⟩ := r
    · exact hcall
    · have hrest := ih ({ p with oldActions := fun s => if s = item.1 then old else p.oldActions s }.setWorld world)
      exact hcall.trans hrest

theorem setAttrs_reaches (p : Process) : p.world.Reaches (setAttrs p).2.world := by
  have hisatty := World.SysCall.reaches (.isatty p.world)
  unfold setAttrs
  generalize p.world.isatty = r at hisatty
  obtain ⟨_ | _, world⟩ := r
  · exact hisatty
  · have hget := World.SysCall.reaches (.tcgetattr world)
    dsimp only at hisatty ⊢
    generalize world.tcgetattr = r at hget
    obtain ⟨_ | attrs, world₁⟩ := r
    · exact hisatty.trans hget
    · exact hisatty.trans (hget.trans (World.SysCall.reaches (.tcsetattr world₁ _)))

theorem init_reaches (P : Platform) (env : Environment) (config : Config) (mode : EchoMode) (p : Process) :
    Ends (fun _ => True) (fun r => p.world.Reaches r.2.world) (init P env config mode p) := by
  unfold init
  refine (loadDfa_ends env p).bind fun p₀ hload => ?_
  obtain ⟨terminfo, root, rfl⟩ := hload
  have hattrs : p.world.Reaches (setAttrs { p with terminfo, root }).2.world :=
    setAttrs_reaches { p with terminfo, root }
  generalize setAttrs { p with terminfo, root } = r at hattrs
  obtain ⟨set, p₁⟩ := r
  cases set with
  | false => exact .ok hattrs
  | true =>
    have hsignals := hattrs.trans (setSignals_reaches (installOrder.map fun sig => (sig, handlerOf sig)) p₁)
    rw [initChain_eq]
    dsimp only at hsignals ⊢
    generalize setSignals _ p₁ = r at hsignals
    obtain ⟨set, p₂⟩ := r
    cases set with
    | false => exact .ok hsignals
    | true =>
      refine ((Io.Reaches.frame P).initOutput .of_world config mode p₂).bind fun r hr => ?_
      obtain ⟨ready, _⟩ := r
      obtain ⟨io, escapeTable, rfl, hio⟩ := hr
      have houtput : p.world.Reaches io.world := hsignals.trans hio
      cases ready with
      | false => exact .ok houtput
      | true =>
        exact ((Io.Reaches.frame P).queries.renderInit _ mode config.echoFile _).bind fun _ hrender =>
          .ok (houtput.trans hrender)

/-! ### Tearing down -/

theorem restoreSignals_errno {sigs : List Signal} {p p' : Process}
    (h : restoreSignals sigs p = (true, p')) : p'.world.errno = p.world.errno := by
  induction sigs generalizing p with
  | nil =>
    obtain rfl : p = p' := congrArg Prod.snd h
    rfl
  | cons sig sigs ih =>
    have hcall := World.SysCall.sigaction p.world sig (p.oldActions sig)
    unfold restoreSignals at h
    generalize p.world.sigaction sig (p.oldActions sig) = r at h hcall
    obtain ⟨_ | old, world⟩ := r
    · cases h
    · exact (ih h).trans hcall.errno

/-- `isatty` fails on what is no terminal. -/
theorem restoreAttrs_errno {p p' : Process} (h : restoreAttrs p = (true, p')) :
    p'.world.errno = if p.world.isTty then p.world.errno else .enotty := by
  unfold restoreAttrs at h
  cases htty : p.world.isTty with
  | false =>
    have hisatty : p.world.isatty = (false, { p.world with errno := .enotty }) := by simp [World.isatty, htty]
    rw [hisatty] at h
    obtain rfl := congrArg Prod.snd h
    rfl
  | true =>
    have hisatty : p.world.isatty = (true, p.world) := by simp [World.isatty, htty]
    have hcall := World.SysCall.tcsetattr p.world p.oldAttrs
    rw [hisatty] at h
    dsimp only at h
    generalize p.world.tcsetattr p.oldAttrs = r at h hcall
    obtain ⟨_ | _, world⟩ := r
    · cases h
    · obtain rfl := congrArg Prod.snd h
      exact hcall.errno

/-- A `deinit` that has returned: it has given up at the terminal or the signals, or it comes to
the output, behind calls that leave `errno` but for `isatty`. -/
theorem deinit_cases {P : Platform} {mode : EchoMode} {p p' : Process} {done : Bool}
    (h : deinit P mode p = .ok (done, p')) :
    p.world.tornDown = false ∧ done = false ∨
      p.world.tornDown = true ∧ ∃ p₂ io,
        Process.Calls { p with escapeTable := nrlManipClearCustomTable } p₂ ∧
        p₂.world.errno = (if p.world.isTty then p.world.errno else .enotty) ∧
        deinitOutput P p₂.terminfo mode p₂.screen.io = .ok (done, io) ∧ p' = p₂.setIo io := by
  unfold deinit at h
  dsimp only at h
  obtain ⟨p₁, hattrs, hcalls₁, hrest, -⟩ :=
    restoreAttrs_served { p with escapeTable := nrlManipClearCustomTable }
  obtain ⟨p₂, hsignals, hsets⟩ := restoreSignals_served restoreOrder p₁
  have hworld : Process.world { p with escapeTable := nrlManipClearCustomTable } = p.world := rfl
  rw [hworld] at hattrs hrest
  rw [hattrs] at h
  cases hready : p.world.attrsRestored with
  | false =>
    rw [hready] at h
    obtain ⟨rfl, -⟩ := Prod.mk.inj (Except.ok.inj h)
    exact .inl ⟨by rw [World.tornDown, hready]; rfl, rfl⟩
  | true =>
    have htorn : p.world.tornDown = decide (served p₁.world.calls restoreOrder.length = restoreOrder.length) := by
      rw [World.tornDown, hready, hrest hready]
      rfl
    rw [hready] at hattrs
    rw [hready, deinitChain_eq, hsignals, ← htorn] at h
    rw [← htorn] at hsignals
    cases hserved : p.world.tornDown with
    | false =>
      rw [hserved] at h
      obtain ⟨rfl, -⟩ := Prod.mk.inj (Except.ok.inj h)
      exact .inl ⟨rfl, rfl⟩
    | true =>
      rw [hserved] at h hsignals
      obtain ⟨⟨ready, io⟩, houtput, h⟩ := Run.bind_eq_ok.mp h
      obtain ⟨rfl, rfl⟩ := Prod.mk.inj (Except.ok.inj h)
      have herrno : p₁.world.errno = if p.world.isTty then p.world.errno else .enotty :=
        restoreAttrs_errno (p := { p with escapeTable := nrlManipClearCustomTable }) hattrs
      exact .inr ⟨rfl, p₂, io, hcalls₁.trans hsets.calls, (restoreSignals_errno hsignals).trans herrno,
        houtput, rfl⟩

/-- The steps of a `deinit` that succeeds. -/
theorem deinit_done {P : Platform} {mode : EchoMode} {p p' : Process}
    (h : deinit P mode p = .ok (true, p')) :
    ∃ p₂ io, Process.Calls { p with escapeTable := nrlManipClearCustomTable } p₂ ∧
      p₂.world.errno = (if p.world.isTty then p.world.errno else .enotty) ∧
      deinitOutput P p₂.terminfo mode p₂.screen.io = .ok (true, io) ∧ p' = p₂.setIo io := by
  rcases deinit_cases h with ⟨-, hdone⟩ | ⟨-, hsteps⟩
  · cases hdone
  · exact hsteps

/-- The output of `deinit` ends with the newline, with the end of keypad mode or with the flush. -/
theorem deinitOutput_cases {P : Platform} {t : Terminfo} {mode : EchoMode} {io io' : Io} {done : Bool}
    (h : deinitOutput P t mode io = .ok (done, io')) :
    ∃ io₀, io₀.world = io.world ∧ io₀.wrCount = io.wrCount ∧ io₀.echoEnabled = true ∧
      (nrlIoWrite P [10] io₀ = .ok (false, io') ∧ done = false ∨
        ∃ io₁, nrlIoWrite P [10] io₀ = .ok (true, io₁) ∧
          (nrlIoWriteEscape P t .keypadLocal io₁ = .ok (false, io') ∧ done = false ∨
            ∃ io₂, nrlIoWriteEscape P t .keypadLocal io₁ = .ok (true, io₂) ∧
              nrlIoFlush P io₂ = .ok (done, io'))) := by
  unfold deinitOutput at h
  dsimp only at h
  generalize hstart : nrlIoEchoState true (if mode ≠ .on then nrlIoWipeBuffers io else io) = io₀ at h
  have hstart₀ : io₀.world = io.world ∧ io₀.wrCount = io.wrCount ∧ io₀.echoEnabled = true := by
    rw [← hstart]
    split <;> exact ⟨rfl, rfl, rfl⟩
  refine ⟨io₀, hstart₀.1, hstart₀.2.1, hstart₀.2.2, ?_⟩
  obtain ⟨⟨written, io₁⟩, hnewline, h⟩ := Run.bind_eq_ok.mp h
  cases written with
  | false =>
    obtain ⟨rfl, rfl⟩ := Prod.mk.inj (Except.ok.inj h)
    exact .inl ⟨hnewline, rfl⟩
  | true =>
    obtain ⟨⟨written, io₂⟩, hkeypad, h⟩ := Run.bind_eq_ok.mp h
    refine .inr ⟨io₁, hnewline, ?_⟩
    cases written with
    | false =>
      obtain ⟨rfl, rfl⟩ := Prod.mk.inj (Except.ok.inj h)
      exact .inl ⟨hkeypad, rfl⟩
    | true => exact .inr ⟨io₂, hkeypad, h⟩

/-- The steps of an output that succeeds. -/
theorem deinitOutput_done {P : Platform} {t : Terminfo} {mode : EchoMode} {io io' : Io}
    (h : deinitOutput P t mode io = .ok (true, io')) :
    ∃ io₀ io₁ io₂, io₀.world = io.world ∧ io₀.echoEnabled = true ∧
      nrlIoWrite P [10] io₀ = .ok (true, io₁) ∧
      nrlIoWriteEscape P t .keypadLocal io₁ = .ok (true, io₂) ∧
      nrlIoFlush P io₂ = .ok (true, io') := by
  obtain ⟨io₀, hworld, -, henabled,
    ⟨-, hdone⟩ | ⟨io₁, hnewline, ⟨-, hdone⟩ | ⟨io₂, hkeypad, hflush⟩⟩⟩ := deinitOutput_cases h
  · cases hdone
  · cases hdone
  · exact ⟨io₀, io₁, io₂, hworld, henabled, hnewline, hkeypad, hflush⟩

/-! ### Output that succeeds -/

section Output

variable {P : Platform} {io io' : Io}

/-- What is in the buffer to be written. -/
def Io.pending (io : Io) : List Byte := slice io.wrBuf 0 io.wrCount

/-- A write that reports all of its data has taken all of it. -/
theorem World.write_all {w : World} {data : List Byte} (h : (w.write data).1 = data.length) :
    (w.write data).2.echoed = w.echoed ++ data ∧ (w.write data).2.errno = w.errno := by
  unfold World.write at h ⊢
  cases hw : w.writes with
  | nil => exact ⟨rfl, rfl⟩
  | cons r ws =>
    rw [hw] at h
    cases r with
    | complete => exact ⟨rfl, rfl⟩
    | short n =>
      have htake : (data.take n).length = data.length := Int.ofNat_inj.mp h
      have hall : data.take n = data := List.take_eq_self_iff _ |>.mpr (by rw [List.length_take] at htake; omega)
      dsimp only
      rw [hall]
      exact ⟨rfl, rfl⟩
    | failed errno =>
      dsimp only at h
      omega

/-- A flush that succeeds delivers the buffer. -/
theorem nrlIoFlush_delivers (h : nrlIoFlush P io = .ok (true, io')) :
    io'.world.echoed = io.world.echoed ++ io.pending ∧ io'.echoEnabled = io.echoEnabled ∧
      io'.world.errno = io.world.errno := by
  unfold nrlIoFlush at h
  obtain ⟨_, -, h⟩ := Run.bind_eq_ok.mp h
  split at h
  · rename_i hzero
    obtain ⟨-, rfl⟩ := Prod.mk.inj (Except.ok.inj h)
    refine ⟨?_, rfl, rfl⟩
    rw [Io.pending, hzero]
    exact (List.append_nil _).symm
  · dsimp only at h
    split at h
    · cases h
    · rename_i hall
      obtain ⟨-, rfl⟩ := Prod.mk.inj (Except.ok.inj h)
      have hwritten : (io.world.write io.pending).1 = io.pending.length := by
        rw [Io.pending, length_slice]
        exact not_not.mp hall
      obtain ⟨hechoed, herrno⟩ := World.write_all hwritten
      exact ⟨hechoed, rfl, herrno⟩

/-- Data that has been taken went past the buffer or behind what is in it. -/
theorem bufferData_delivers {data : List Byte} (h : bufferData data io = .ok (true, io')) :
    io'.echoEnabled = io.echoEnabled ∧ io'.world.errno = io.world.errno ∧
      (io'.world.echoed = io.world.echoed ++ data ∧ io'.pending = io.pending ∨
        io'.world.echoed = io.world.echoed ∧ io'.pending = io.pending ++ data) := by
  unfold bufferData at h
  split at h
  · have hall : (io.world.write data).1 = data.length :=
      of_decide_eq_true (congrArg Prod.fst (Except.ok.inj h))
    obtain rfl : { io with world := (io.world.write data).2 } = io' :=
      congrArg Prod.snd (Except.ok.inj h)
    obtain ⟨hechoed, herrno⟩ := World.write_all hall
    exact ⟨rfl, herrno, .inl ⟨hechoed, rfl⟩⟩
  · split at h
    · obtain ⟨-, rfl⟩ := Prod.mk.inj (Except.ok.inj h)
      exact ⟨rfl, rfl, .inr ⟨rfl, slice_memcpy_append io.wrBuf io.wrCount data⟩⟩
    · cases h

/-- The steps of a write that succeeds: perhaps a flush, then the data. -/
theorem nrlIoWrite_cases {data : List Byte} (henabled : io.echoEnabled = true)
    (h : nrlIoWrite P data io = .ok (true, io')) :
    ∃ io₁, (io₁ = io ∨ nrlIoFlush P io = .ok (true, io₁)) ∧ bufferData data io₁ = .ok (true, io') := by
  unfold nrlIoWrite at h
  rw [if_pos henabled] at h
  split at h
  · obtain ⟨⟨flushed, io₁⟩, hflush, h⟩ := Run.bind_eq_ok.mp h
    cases flushed with
    | false => cases h
    | true => exact ⟨io₁, .inr hflush, h⟩
  · exact ⟨io, .inl rfl, h⟩

/-- Output that succeeds leaves `errno`. -/
theorem nrlIoWrite_errno {data : List Byte} (h : nrlIoWrite P data io = .ok (true, io')) :
    io'.world.errno = io.world.errno := by
  by_cases henabled : io.echoEnabled = true
  · obtain ⟨io₁, hflush, hbuffer⟩ := nrlIoWrite_cases henabled h
    have herrno := (bufferData_delivers hbuffer).2.1
    rcases hflush with rfl | hflush
    · exact herrno
    · exact herrno.trans (nrlIoFlush_delivers hflush).2.2
  · unfold nrlIoWrite at h
    rw [if_neg henabled] at h
    obtain ⟨-, rfl⟩ := Prod.mk.inj (Except.ok.inj h)
    rfl

end Output

end Nanorl
