import Nanorl.Model.Dfa

/-!
# Nanorl.Model.Io

`io.c`: the reader, which turns bytes into input events, and the echo buffer.

The read buffer is an array with three counters. `rdBuf[rdUsed .. rdCount)` is
unread, and of it the first `rdPending` entries have been handed out by
`nextChar` and are taken back unless the token under way is accepted. When the
token reaches the end of the buffer, `nextChar` moves the pending entries to the
front and reads more behind them.

Storing past the end of an array is a fault; the refill's `memmove` may *read*
past the end, where it finds the stray bytes of the world.
-/

namespace Nanorl

/-- `IO_BUF_SIZE` -/
def ioBufSize : Nat := 4096

/-- `CHAR_EOT` -/
def charEot : Byte := 4

/-- `UNICODE_ERROR_CHAR` -/
def unicodeErrorChar : Uchar := 0xfffd

/-- The static data of `io.c`, and the world it talks to. -/
structure Io where
  readFile : Int
  echoFile : Int
  rdBuf : Nat → Byte
  rdCount : Nat
  rdUsed : Nat
  rdPending : Nat
  wrBuf : Nat → Byte
  wrCount : Nat
  preloadData : Option (List Byte)
  echoEnabled : Bool
  world : World

/-- `input_type` -/
inductive InputType
  | text
  | escape
  | customEscape
  | stop
  deriving Repr, DecidableEq

/-- `input_buf`; `text` is the written part of the array, `length` entries long. -/
structure InputBuf where
  escape : DfaAcceptor
  eof : Bool
  text : List Uchar
  more : Bool
  deriving Repr, DecidableEq

/-- The buffer of a caller before its first read, which sets what is used of it. -/
def freshBuffer : InputBuf := { escape := ⟨0⟩, eof := false, text := [], more := false }

section Io

variable (P : Platform)

/-! ### Reading bytes -/

/-- Write `data` into `rd_buf` from index `start` on. -/
def Io.store (s : Io) (start : Nat) (data : List Byte) : Except Fault Io :=
  if start + data.length ≤ ioBufSize then
    .ok { s with rdBuf := memcpy s.rdBuf start data }
  else .error .outOfBounds

/-- `read_wrapper(read_file, rd_buf + start, count)`, for a preload whose length fits into its
`uint32_t`. -/
def readWrapper (start count : Nat) (s : Io) : Except Fault (Nat × Io) := do
  P.assert .readFile (s.readFile ≠ -1)
  P.assert .readCount (0 < count)
  match s.preloadData with
  | some preload =>
    let remaining := preload.length
    if remaining > count then
      let s ← s.store start (preload.take count)
      pure (count, { s with preloadData := some (preload.drop count) })
    else
      let s ← s.store start preload
      pure (remaining, { s with preloadData := none })
  | none =>
    match s.world.read count with
    | (some (byte :: bytes), world) =>
      let s ← { s with world }.store start (byte :: bytes)
      pure ((byte :: bytes).length, s)
    -- end of file or an error: place an eof character
    | (_, world) =>
      let s ← { s with world }.store start [charEot]
      pure (1, s)

/-- What `memmove` finds from index `rdCount` on: the array, then stray bytes. -/
def Io.behindCount (s : Io) : List Byte :=
  (List.range s.rdPending).map fun i =>
    if s.rdCount + i < ioBufSize then s.rdBuf (s.rdCount + i)
    else s.world.stray 0 (s.rdCount + i)

/-- The first branch of `next_char`: no characters are left in the buffer. -/
def fillBuffer (s : Io) : Except Fault Io :=
  if s.rdUsed = s.rdCount then do
    let (bytes, s) ← readWrapper P 0 ioBufSize { s with rdUsed := 0, rdPending := 0 }
    pure { s with rdCount := bytes }
  else .ok s

/-- The second branch of `next_char`: a token under way has reached the end. -/
def refillBuffer (s : Io) : Except Fault Io :=
  if s.rdUsed + s.rdPending = s.rdCount then do
    let s ← s.store 0 s.behindCount
    let s := { s with rdCount := s.rdPending, rdUsed := 0, world := s.world.nextStray }
    let (bytes, s) ← readWrapper P s.rdCount (ioBufSize - s.rdCount) s
    pure { s with rdCount := s.rdCount + bytes }
  else .ok s

/-- `rd_buf[rd_used + rd_pending++]` -/
def takeChar (s : Io) : Except Fault (Byte × Io) :=
  if s.rdUsed + s.rdPending < ioBufSize then
    .ok (s.rdBuf (s.rdUsed + s.rdPending), { s with rdPending := s.rdPending + 1 })
  else .error .outOfBounds

/-- `next_char` -/
def nextChar (s : Io) : Except Fault (Byte × Io) := do
  let s ← fillBuffer P s
  let s ← refillBuffer P s
  takeChar s

/-! ### Reading characters -/

/-- How many bytes follow a lead byte. -/
def Utf8Info.following : Utf8Info → Nat
  | .twoBytes => 1
  | .threeBytes => 2
  | .fourBytes => 3
  | .other => 0

/-- `count` calls of `next_char`. -/
def nextChars : Nat → Io → Except Fault (List Byte × Io)
  | 0, s => .ok ([], s)
  | count + 1, s => do
      let (byte, s) ← nextChar P s
      let (bytes, s) ← nextChars count s
      pure (byte :: bytes, s)

/-- The four bytes `next_uchar` passes to the parser: those read and zeros. -/
def ucharBuffer (bytes : List Byte) : List Byte :=
  bytes ++ List.replicate (4 - bytes.length) 0

/-- `next_uchar` -/
def nextUchar (s : Io) : Except Fault (Uchar × Io) := do
  let (lead, s) ← nextChar P s
  let (bytes, s) ← nextChars P (P.utf8Inspect lead).following s
  let (consumed, uc) := P.utf8ParseUchar (ucharBuffer (lead :: bytes))
  if consumed = 0 then
    pure (unicodeErrorChar, { s with rdUsed := s.rdUsed + 1, rdPending := 0 })
  else pure (uc, { s with rdUsed := s.rdUsed + consumed, rdPending := 0 })

/-! ### Events -/

/-- `nrl_io_parse_control` -/
def nrlIoParseControl (c : Uchar) (buffer : InputBuf) : Bool × InputBuf :=
  -- '^', '?'
  if c = 0x7f then (true, { buffer with text := [94, 63] })
  else if c ≥ 0x20 then (false, buffer)
  else (true, { buffer with text := [94, c + 0x40] })

/-- The read of `nrl_io_read` itself, needed where the parser has pulled nothing. -/
def fillUnparsed (s : Io) : Except Fault Io :=
  if s.rdCount = s.rdUsed then do
    let (bytes, s) ← readWrapper P 0 ioBufSize s
    pure { s with rdCount := bytes, rdUsed := 0 }
  else .ok s

/-- What `nrl_io_read` makes of a code point. -/
def classify (uc : Uchar) (buffer : InputBuf) : InputType × InputBuf :=
  if uc = 10 ∨ uc = charEot.toUInt32 then
    (.stop, { buffer with eof := decide (uc = charEot.toUInt32) })
  else
    match nrlIoParseControl uc buffer with
    | (true, buffer) => (.text, buffer)
    | (false, buffer) => (.text, { buffer with text := [uc] })

/-- `nrl_io_read`, with the tree of `dfa.c`. -/
def nrlIoRead (root : DfaNode) (buffer : InputBuf) (s : Io) :
    Except Fault (InputType × InputBuf × Io) := do
  let (result, escape, s) ← nrlDfaParse (nextChar P) root buffer.escape s
  let buffer := { buffer with escape }
  if result ≠ .empty then
    let s := { s with rdUsed := s.rdUsed + s.rdPending, rdPending := 0 }
    let buffer := { buffer with more := decide (s.rdUsed < s.rdCount) }
    pure (if result = .custom then .customEscape else .escape, buffer, s)
  else
    let s ← fillUnparsed P s
    let (uc, s) ← nextUchar P { s with rdPending := 0 }
    let (type, buffer) := classify uc { buffer with more := decide (s.rdUsed < s.rdCount) }
    pure (type, buffer, s)

/-- `nrl_io_raw_read`: the bytes received, or nothing on an error. -/
def nrlIoRawRead (bufSize : Nat) (s : Io) : Except Fault (Option (List Byte) × Io) := do
  P.assert .rawReadFile (s.readFile ≠ -1)
  P.assert .rawReadCount (0 < bufSize)
  let (bytes, world) := s.world.read bufSize
  pure (bytes, { s with world })

/-- `nrl_io_init` -/
def nrlIoInit (readFd echoFd : Int) (preload : Option (List Byte)) (s : Io) : Io :=
  { s with
    readFile := readFd
    echoFile := echoFd
    rdCount := 0
    rdUsed := 0
    rdPending := 0
    wrCount := 0
    preloadData := preload }

/-! ### Echo -/

/-- `nrl_io_flush` -/
def nrlIoFlush (s : Io) : Except Fault (Bool × Io) := do
  P.assert .echoFile (s.echoFile ≠ -1)
  if s.wrCount = 0 then pure (true, s)
  else
    let (written, world) := s.world.write (slice s.wrBuf 0 s.wrCount)
    if written ≠ s.wrCount then pure (false, { s with world })
    else pure (true, { s with world, wrCount := 0 })

/-- The part of `nrl_io_write` after the overflow check. -/
def bufferData (data : List Byte) (s : Io) : Except Fault (Bool × Io) :=
  if data.length > ioBufSize then
    let (written, world) := s.world.write data
    .ok (written = data.length, { s with world })
  else if s.wrCount + data.length ≤ ioBufSize then
    .ok (true, { s with
      wrBuf := memcpy s.wrBuf s.wrCount data
      wrCount := s.wrCount + data.length })
  else .error .outOfBounds

/-- `nrl_io_write` of `data`, whose length is a `uint32_t`. -/
def nrlIoWrite (data : List Byte) (s : Io) : Except Fault (Bool × Io) :=
  if s.echoEnabled then
    if (s.wrCount + data.length) % 2 ^ 32 > ioBufSize then do
      let (flushed, s) ← nrlIoFlush P s
      if flushed then bufferData data s else pure (false, s)
    else bufferData data s
  else .ok (true, s)

/-- `nrl_io_write_escape` -/
def nrlIoWriteEscape (t : Terminfo) (escape : TerminfoOutput) (s : Io) :
    Except Fault (Bool × Io) :=
  match nrlLookupOutput t escape.id with
  | none => .ok (true, s)
  | some asText => nrlIoWrite P asText s

/-- `nrl_io_wipe_buffers` -/
def nrlIoWipeBuffers (s : Io) : Io :=
  { s with
    rdBuf := memcpy s.rdBuf 0 (List.replicate ioBufSize 0)
    wrBuf := memcpy s.wrBuf 0 (List.replicate ioBufSize 0) }

/-- `nrl_io_echo_state` -/
def nrlIoEchoState (enabled : Bool) (s : Io) : Io := { s with echoEnabled := enabled }

end Io

end Nanorl
