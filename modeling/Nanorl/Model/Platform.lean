import Nanorl.Lib.Run

/-!
# Nanorl.Model.Platform

What the sources are compiled against and run under.

* `Fault`: how a run of the C program can leave its normal control flow. A
  modelled function returns `Except Fault`; a run without a fault is one on
  which no assert fails, no array is left and no null pointer is followed.
* `Platform`: the functions of the c-utils library the sources call, and the
  `NDEBUG` switch of the release build. c-utils is a submodule, so these are
  parameters; what a result needs of them is a named hypothesis there.
* `World`: the descriptors, the terminal and the signal dispositions of the
  process. Each system call takes its outcome from a script, and a script that
  has run out stands for the plain outcome: end of file, complete writes,
  successful calls.

Vectors, stacks and C strings are lists; a string never holds its terminator.
-/

namespace Nanorl

/-- A byte, the model of `char`. Where the sign of `char` matters the function
that widens it says so. -/
abbrev Byte := UInt8

/-- A code point, `uchar` in the sources. -/
abbrev Uchar := UInt32

/-- The asserts of the sources. -/
inductive Assertion
  | readFile
  | readCount
  | rawReadFile
  | rawReadCount
  | echoFile
  | vectorStatus
  | termSmart
  | lineWidth
  | charWidth
  | reportSize
  | reportRow
  | reportCol
  deriving Repr, DecidableEq

/-- How a run leaves the normal control flow. -/
inductive Fault
  /-- A failed `assert` (builds without `NDEBUG`). -/
  | assertion (a : Assertion)
  /-- An access outside an array or behind a string's terminator. -/
  | outOfBounds
  /-- A null pointer is followed. -/
  | nullDeref
  /-- A division by zero. -/
  | divByZero
  /-- An automatic variable is used before it was set. -/
  | uninitialised
  /-- `value.children` is used where `value.accept` was written last. -/
  | childrenOfAcceptor
  /-- `value.accept` is written over the child array of an inner node. -/
  | acceptOverChildren
  /-- A loop has not ended within the rounds the model allows it. -/
  | outOfFuel
  deriving Repr, DecidableEq

/-- What `utf8_inspect` says of a lead byte. The sources tell only the three
multibyte classes apart. -/
inductive Utf8Info
  | twoBytes
  | threeBytes
  | fourBytes
  | other
  deriving Repr, DecidableEq

/-- c-utils and the build switch. -/
structure Platform where
  /-- Asserts are compiled out. -/
  ndebug : Bool
  utf8Inspect : Byte → Utf8Info
  /-- Bytes consumed (0 on malformed input) and the code point, for the four
  bytes at the pointer. -/
  utf8ParseUchar : List Byte → Nat × Uchar
  utf8Encode : List Uchar → List Byte
  /-- The decoded text and the error flag. -/
  utf8Decode : List Byte → List Uchar × Bool
  ucwidth : Uchar → Int
  ucswidth : List Uchar → Int

/-- `assert`, which a release build leaves out. -/
def Platform.assert (P : Platform) (a : Assertion) (b : Bool) : Except Fault Unit :=
  if b || P.ndebug then .ok () else .error (.assertion a)

theorem Platform.assert_of (P : Platform) (a : Assertion) {b : Bool} (h : b = true) :
    P.assert a b = .ok () := by
  simp [Platform.assert, h]

theorem Platform.assert_ok {P : Platform} {a : Assertion} {b : Bool} {u : Unit} :
    P.assert a b = .ok u ↔ b = true ∨ P.ndebug = true := by
  cases b <;> simp [Platform.assert]

theorem Platform.assert_error {P : Platform} {a : Assertion} {b : Bool} {f : Fault}
    (h : P.assert a b = .error f) : f = .assertion a := by
  unfold Platform.assert at h
  split at h
  · exact absurd h (by simp)
  · exact (Except.error.inj h).symm

/-! ### C strings -/

/-- What string functions see of an array: the entries before the first zero. -/
def cstr {α : Type} [BEq α] [OfNat α 0] (l : List α) : List α :=
  l.takeWhile (fun c => !(c == 0))

theorem ne_zero_of_mem {α : Type} [BEq α] [LawfulBEq α] [OfNat α 0] {text : List α}
    (h : (0 : α) ∉ text) : ∀ c ∈ text, (!(c == 0)) = true := by
  intro c hc
  have hne : c ≠ 0 := fun heq => h (heq ▸ hc)
  simpa using hne

theorem cstr_append {α : Type} [BEq α] [LawfulBEq α] [OfNat α 0] {text : List α}
    (h : (0 : α) ∉ text) (rest : List α) :
    cstr (text ++ 0 :: rest) = text := by
  rw [cstr, List.takeWhile_append_of_pos (ne_zero_of_mem h)]
  simp

theorem cstr_eq_self {α : Type} [BEq α] [LawfulBEq α] [OfNat α 0] {text : List α}
    (h : (0 : α) ∉ text) : cstr text = text := by
  have htake : (text ++ []).takeWhile (fun c => !(c == 0)) = text ++ [].takeWhile (fun c => !(c == 0)) :=
    List.takeWhile_append_of_pos (ne_zero_of_mem h)
  rwa [List.append_nil, List.takeWhile_nil, List.append_nil] at htake

/-- `strstr(haystack, needle) != NULL` -/
def strstr (haystack needle : List Byte) : Bool :=
  haystack.tails.any fun t => needle.isPrefixOf t

/-- An array with `data` written over it from index `start` on. -/
def memcpy {α : Type} (mem : Nat → α) (start : Nat) (data : List α) : Nat → α :=
  fun i => if start ≤ i then (data[i - start]?).getD (mem i) else mem i

/-- `count` entries of an array from index `start` on. -/
def slice {α : Type} (mem : Nat → α) (start count : Nat) : List α :=
  (List.range count).map fun i => mem (start + i)

@[simp] theorem length_slice {α : Type} (mem : Nat → α) (start count : Nat) :
    (slice mem start count).length = count := by
  simp [slice]

theorem getElem?_slice {α : Type} (mem : Nat → α) (start count i : Nat) :
    (slice mem start count)[i]? = if i < count then some (mem (start + i)) else none := by
  by_cases h : i < count
  · rw [if_pos h]
    simp [slice, h]
  · rw [if_neg h]
    simp [slice, Nat.le_of_not_lt h]

theorem memcpy_add {α : Type} (mem : Nat → α) (start i : Nat) {data : List α} {c : α}
    (h : data[i]? = some c) : memcpy mem start data (start + i) = c := by
  simp [memcpy, h]

theorem memcpy_ge {α : Type} (mem : Nat → α) {start i : Nat} {data : List α}
    (h : start + data.length ≤ i) : memcpy mem start data i = mem i := by
  have hnone : data[i - start]? = none := List.getElem?_eq_none (by omega)
  simp [memcpy, hnone]

/-- An entry is one of those written or what it was. -/
theorem memcpy_mem {α : Type} (mem : Nat → α) (start : Nat) (data : List α) (i : Nat) :
    memcpy mem start data i ∈ data ∨ memcpy mem start data i = mem i := by
  unfold memcpy
  split
  · cases hi : data[i - start]? with
    | none => exact .inr rfl
    | some c => exact .inl (List.mem_of_getElem? hi)
  · exact .inr rfl

theorem slice_memcpy {α : Type} (mem : Nat → α) (start : Nat) (data : List α) :
    slice (memcpy mem start data) start data.length = data := by
  apply List.ext_getElem?
  intro i
  rw [getElem?_slice]
  by_cases h : i < data.length
  · rw [if_pos h, memcpy_add mem start i (List.getElem?_eq_getElem h),
      List.getElem?_eq_getElem h]
  · rw [if_neg h, List.getElem?_eq_none (by omega)]

/-! ### The process's surroundings -/

/-- The values of `errno` the sources can meet. -/
inductive Errno
  | none
  | eintr
  | enotty
  | other
  deriving Repr, DecidableEq

/-- The outcome of one `read`: bytes (none of them for end of file) or an error. -/
inductive ReadResult
  | data (bytes : List Byte)
  | failed (errno : Errno)
  deriving Repr, DecidableEq

/-- The outcome of one `write`. -/
inductive WriteResult
  | complete
  | short (count : Nat)
  | failed (errno : Errno)
  deriving Repr, DecidableEq

/-- The outcome of a call that only succeeds or fails. -/
inductive SysResult
  | done
  | failed (errno : Errno)
  deriving Repr, DecidableEq

/-- The signals nanorl handles. -/
inductive Signal
  | hup
  | int
  | term
  | quit
  | winch
  deriving Repr, DecidableEq

/-- What a signal is set to: something the caller installed, or one of the two
handlers of nanorl. -/
inductive SigAction
  | caller (id : Nat)
  | generic
  | sigwinch
  deriving Repr, DecidableEq

/-- Terminal attributes: the two flags nanorl clears and everything else. -/
structure Termios where
  icanon : Bool
  echo : Bool
  rest : Nat
  deriving Repr, DecidableEq

structure World where
  errno : Errno
  /-- What the next reads of the input return; then end of file. -/
  reads : List ReadResult
  /-- The outcomes of the next writes; then every write is complete. -/
  writes : List WriteResult
  /-- What the echo file has received. -/
  echoed : List Byte
  /-- The bytes memory holds behind `rd_buf` when the next refills read there. -/
  stray : Nat → Nat → Byte
  isTty : Bool
  /-- The outcomes of the next terminal and signal calls; then they succeed. -/
  calls : List SysResult
  /-- The replies to the next window size requests; then these fail. -/
  winsizes : List (Option (UInt16 × UInt16))
  attrs : Termios
  actions : Signal → SigAction

namespace World

/-- `read`: the bytes received, none for end of file, or nothing on an error. A
descriptor hands over at most `count` bytes and keeps the rest. -/
def read (w : World) (count : Nat) : Option (List Byte) × World :=
  match w.reads with
  | [] => (some [], w)
  | .failed e :: rs => (none, { w with reads := rs, errno := e })
  | .data bytes :: rs =>
    (some (bytes.take count),
      { w with reads := if bytes.length ≤ count then rs else .data (bytes.drop count) :: rs })

/-- `write`: how many bytes were taken, or -1. -/
def write (w : World) (data : List Byte) : Int × World :=
  match w.writes with
  | [] => (data.length, { w with echoed := w.echoed ++ data })
  | .complete :: ws => (data.length, { w with writes := ws, echoed := w.echoed ++ data })
  | .short n :: ws =>
    ((data.take n).length, { w with writes := ws, echoed := w.echoed ++ data.take n })
  | .failed e :: ws => (-1, { w with writes := ws, errno := e })

/-- Take the outcome of a terminal or signal call. -/
def call (w : World) : Bool × World :=
  match w.calls with
  | [] => (true, w)
  | .done :: cs => (true, { w with calls := cs })
  | .failed e :: cs => (false, { w with calls := cs, errno := e })

/-- `isatty`, which sets `errno` for anything but a terminal. -/
def isatty (w : World) : Bool × World :=
  if w.isTty then (true, w) else (false, { w with errno := .enotty })

/-- `tcgetattr` -/
def tcgetattr (w : World) : Option Termios × World :=
  match w.call with
  | (true, w) => (some w.attrs, w)
  | (false, w) => (none, w)

/-- `tcsetattr` -/
def tcsetattr (w : World) (attrs : Termios) : Bool × World :=
  match w.call with
  | (true, w) => (true, { w with attrs })
  | (false, w) => (false, w)

/-- `sigaction`: the previous disposition, or nothing on an error. -/
def sigaction (w : World) (sig : Signal) (act : SigAction) : Option SigAction × World :=
  match w.call with
  | (true, w) =>
    (some (w.actions sig),
      { w with actions := fun s => if s = sig then act else w.actions s })
  | (false, w) => (none, w)

/-- A refill has read the stray bytes it met. -/
def nextStray (w : World) : World := { w with stray := fun k => w.stray (k + 1) }

/-- `ioctl(TIOCGWINSZ)`: rows and columns, or nothing for what is no terminal. -/
def winsize (w : World) : Option (UInt16 × UInt16) × World :=
  match w.winsizes with
  | [] => (none, { w with errno := .enotty })
  | none :: ws => (none, { w with winsizes := ws, errno := .enotty })
  | some size :: ws => (some size, { w with winsizes := ws })

end World

end Nanorl
