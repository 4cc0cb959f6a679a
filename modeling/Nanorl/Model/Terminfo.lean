import Nanorl.Lib.Words
import Nanorl.Model.Platform

/-!
# Nanorl.Model.Terminfo

`terminfo.c` and `fastload.c`: finding a compiled terminal description, reading
its string capabilities into four tables, and the lookups into those tables.

The description is an untrusted binary file. `parse` reads its header word by
word, skips to the string offsets and copies the requested strings, and it
trusts what the file says about itself. The model keeps that: a header word the
file was too short to supply is `none`, and every index into the offsets or the
string table is an access that can fault.
-/

namespace Nanorl

/-- The bytes of a string literal. -/
def ascii (s : String) : List Byte := s.toList.map fun c => UInt8.ofNat c.toNat

/-! ### Identifiers -/

/-- `terminfo_input` -/
inductive TerminfoInput
  | keyLeft
  | keyRight
  | keyBackspace
  | keyHome
  | keyEnd
  | keyDelete
  deriving Repr, DecidableEq

/-- The enumerator's value. -/
def TerminfoInput.id : TerminfoInput → Nat
  | keyLeft => 0
  | keyRight => 1
  | keyBackspace => 2
  | keyHome => 3
  | keyEnd => 4
  | keyDelete => 5

/-- `terminfo_output` -/
inductive TerminfoOutput
  | keypadLocal
  | keypadXmit
  deriving Repr, DecidableEq

def TerminfoOutput.id : TerminfoOutput → Nat
  | keypadLocal => 0
  | keypadXmit => 1

/-- `terminfo_special` -/
inductive TerminfoSpecial
  | cursorAddress
  | user6
  | user7
  deriving Repr, DecidableEq

def TerminfoSpecial.id : TerminfoSpecial → Nat
  | cursorAddress => 0
  | user6 => 1
  | user7 => 2

def tiiCount : Nat := 6
def ticCount : Nat := 29
def tioCount : Nat := 2
def tisCount : Nat := 3

/-! ### Capability tables -/

/-- The static data of `terminfo.c`. -/
structure Terminfo where
  attemptedLoad : Bool
  loadResult : Bool
  inputs : List (Option (List Byte))
  customs : List (Option (List Byte))
  outputs : List (Option (List Byte))
  specials : List (Option (List Byte))
  deriving Repr, DecidableEq

/-- Nothing loaded yet. -/
def Terminfo.unloaded : Terminfo where
  attemptedLoad := false
  loadResult := false
  inputs := List.replicate tiiCount none
  customs := List.replicate ticCount none
  outputs := List.replicate tioCount none
  specials := List.replicate tisCount none

/-- `nrl_lookup_input` -/
def nrlLookupInput (t : Terminfo) (id : Nat) : Option (List Byte) := (t.inputs[id]?).join

/-- `nrl_lookup_custom` -/
def nrlLookupCustom (t : Terminfo) (id : Nat) : Option (List Byte) := (t.customs[id]?).join

/-- `nrl_lookup_output` -/
def nrlLookupOutput (t : Terminfo) (id : Nat) : Option (List Byte) := (t.outputs[id]?).join

/-- `nrl_lookup_special` -/
def nrlLookupSpecial (t : Terminfo) (id : Nat) : Option (List Byte) := (t.specials[id]?).join

/-- `nrl_term_is_smart`. All three tests index `outputs`, whichever enumeration
the index is taken from. -/
def nrlTermIsSmart (t : Terminfo) : Bool :=
  (nrlLookupOutput t TerminfoInput.keyLeft.id).isSome
    && (nrlLookupOutput t TerminfoInput.keyRight.id).isSome
    && (nrlLookupOutput t TerminfoSpecial.cursorAddress.id).isSome

/-! ### Parsing a description -/

/-- `MAGIC_INT16` -/
def magicInt16 : Nat := 0o432

/-- `MAGIC_INT32` -/
def magicInt32 : Nat := 0o1036

/-- `input_seq_indices` -/
def inputSeqIndices : List Nat := [79, 83, 55, 76, 164, 59]

/-- `custom_seq_indices` -/
def customSeqIndices : List Nat :=
  [56, 57, 58, 60, 61, 62, 63, 64, 65, 66, 68, 69, 70, 71, 72, 73, 74, 75, 67, 77, 78,
    80, 81, 82, 84, 85, 86, 87, 134]

/-- `output_seq_indices` -/
def outputSeqIndices : List Nat := [88, 89]

/-- `special_seq_indices` -/
def specialSeqIndices : List Nat := [10, 293, 294]

/-- An open description: its bytes, and whether `fseek` works on it. -/
structure File where
  content : List Byte
  seekable : Bool
  deriving Repr, DecidableEq

/-- The `k`-th 16-bit word of `bytes` on a little-endian host, if it is there. -/
def word16 (bytes : List Byte) (k : Nat) : Option Nat := Words.wordAt 2 bytes k

/-- A header word; the code uses it whether or not `fread` has set it. -/
def headerWord (header : List Byte) (k : Nat) : Except Fault Nat :=
  match word16 header k with
  | some w => .ok w
  | none => .error .uninitialised

/-- `fread(buf, size, count, file)` at offset `pos` with all `count` items
required: the bytes read, or nothing if the file ends before. -/
def freadAll (content : List Byte) (pos size count : Nat) : Option (List Byte) :=
  if size * count ≤ content.length - pos then some ((content.drop pos).take (size * count))
  else none

/-- A stored offset as `int16_t`. -/
def int16 (w : Nat) : Int := (w : Int).bmod (2 ^ 16)

/-- One round of the loop of `lookup_strings`: `strings` has `count` entries. -/
def lookupString (strings stringsTable : List Byte) (count index : Nat) :
    Except Fault (Option (List Byte)) :=
  if count ≤ index then .error .outOfBounds
  else
    match word16 strings index with
    | none => .error .outOfBounds
    | some w =>
      if int16 w < 0 then .ok none
      else
        let sequence := stringsTable.drop w
        -- `strlen` leaves the table when no terminator follows the offset
        if (0 : Byte) ∈ sequence then
          if (cstr sequence).length = 0 then .ok none else .ok (some (cstr sequence))
        else .error .outOfBounds

/-- `lookup_strings` -/
def lookupStrings (strings stringsTable : List Byte) (count : Nat) :
    List Nat → Except Fault (List (Option (List Byte)))
  | [] => .ok []
  | index :: indices => do
      let entry ← lookupString strings stringsTable count index
      let rest ← lookupStrings strings stringsTable count indices
      pure (entry :: rest)

/-- The lookups of `parse`, which fill the four tables. -/
def lookupTables (strings stringsTable : List Byte) (count : Nat) (t : Terminfo) :
    Except Fault (Bool × Terminfo) := do
  let inputs ← lookupStrings strings stringsTable count inputSeqIndices
  let outputs ← lookupStrings strings stringsTable count outputSeqIndices
  let specials ← lookupStrings strings stringsTable count specialSeqIndices
  let customs ← lookupStrings strings stringsTable count customSeqIndices
  pure (true, { t with inputs, outputs, specials, customs })

/-- The part of `parse` behind `fseek`, at offset `pos` of the file. -/
def parseStrings (content header : List Byte) (pos : Nat) (t : Terminfo) :
    Except Fault (Bool × Terminfo) := do
  let count ← headerWord header 4
  match freadAll content pos 2 count with
  | none => pure (false, t)
  | some strings =>
    let tableSize ← headerWord header 5
    match freadAll content (pos + 2 * count) 1 tableSize with
    | none => pure (false, t)
    | some stringsTable => lookupTables strings stringsTable count t

/-- `parse`: the tables are filled only when it returns true. -/
def parse (terminfo : File) (t : Terminfo) : Except Fault (Bool × Terminfo) := do
  let header := terminfo.content.take 12
  let magic ← headerWord header 0
  if magic = magicInt16 ∨ magic = magicInt32 then
    let numberSize := if magic = magicInt16 then 2 else 4
    let names ← headerWord header 1
    let booleans ← headerWord header 2
    let numbers ← headerWord header 3
    -- extra padding byte
    let stringStart := (names + booleans) + (names + booleans) % 2 + numberSize * numbers
    if terminfo.seekable then
      parseStrings terminfo.content header (header.length + stringStart) t
    else pure (false, t)
  else pure (false, t)

/-! ### Finding a description -/

/-- The environment variables and the file system a call of `nanorl` sees. -/
structure Environment where
  term : Option (List Byte)
  terminfo : Option (List Byte)
  home : Option (List Byte)
  terminfoDirs : Option (List Byte)
  fopen : List Byte → Option File

/-- `sysdb_path`, with every database of `config.h` enabled. -/
def sysdbPath : List (List Byte) :=
  [ascii "/etc/terminfo", ascii "/lib/terminfo", ascii "/usr/share/etc/terminfo",
    ascii "/usr/share/misc/terminfo", ascii "/usr/share/terminfo/"]

/-- `try_open`. An empty terminal name puts its terminator into the path. -/
def tryOpen (env : Environment) (dbPath term : List Byte) : Option File :=
  env.fopen (cstr (dbPath ++ ascii "/" ++ [term.headD 0] ++ ascii "/" ++ term))

/-- The colon-separated entries `strtok` returns: empty ones are skipped. -/
def strtokColons (dirs : List Byte) : List (List Byte) :=
  (dirs.splitOn 58).filter (· ≠ [])

/-- `find_entry` -/
def findEntry (env : Environment) (term : List Byte) : Option File :=
  let dirs := env.terminfo.toList
    ++ (env.home.map (· ++ ascii "/.terminfo")).toList
    ++ (env.terminfoDirs.map strtokColons).getD []
    ++ sysdbPath
  dirs.findSome? fun dir => tryOpen env dir term

/-! ### Precompiled descriptions -/

/-- `xterm_inputs_stub` -/
def xtermInputsStub : List (Option (List Byte)) :=
  [some (ascii "\x1bOD"), some (ascii "\x1bOC"), some [0o177], some (ascii "\x1bOH"),
    some (ascii "\x1bOF"), some (ascii "\x1b[3~")]

/-- `xterm_outputs_stub` -/
def xtermOutputsStub : List (Option (List Byte)) :=
  [some (ascii "\x1b[?1l\x1b>"), some (ascii "\x1b[?1h\x1b=")]

/-- `xterm_specials_stub` -/
def xtermSpecialsStub : List (Option (List Byte)) :=
  [some (ascii "\x1b[%i%p1%d;%p2%dH"), some (ascii "\x1b[%i%d;%dR"), some (ascii "\x1b[6n")]

/-- `xterm_customs_stub` -/
def xtermCustomsStub : List (Option (List Byte)) :=
  [none, none, none, none, some (ascii "\x1bOB"), none,
    none, none, none, some (ascii "\x1bOP"), some (ascii "\x1bOQ"), some (ascii "\x1bOR"),
    some (ascii "\x1bOS"), some (ascii "\x1b[15~"), some (ascii "\x1b[17~"),
    some (ascii "\x1b[18~"), some (ascii "\x1b[19~"), some (ascii "\x1b[20~"),
    some (ascii "\x1b[21~"), some (ascii "\x1b[2~"), none, none, some (ascii "\x1b[6~"),
    some (ascii "\x1b[5~"),
    some (ascii "\x1b[1;2B"), some (ascii "\x1b[1;2A"), none, some (ascii "\x1bOA"),
    some [9]]

/-- `nrl_fl_xterm` -/
def nrlFlXterm (t : Terminfo) : Terminfo :=
  { t with
    inputs := xtermInputsStub
    customs := xtermCustomsStub
    outputs := xtermOutputsStub
    specials := xtermSpecialsStub }

/-- `nrl_load_terminfo` -/
def nrlLoadTerminfo (env : Environment) (t : Terminfo) : Except Fault (Bool × Terminfo) :=
  if t.attemptedLoad then .ok (t.loadResult, t)
  else
    let t := { t with attemptedLoad := true }
    match env.term with
    | none => .ok (false, t)
    | some term =>
      if strstr term (ascii "xterm") then .ok (true, { nrlFlXterm t with loadResult := true })
      else
        match findEntry env term with
        | none => .ok (false, t)
        | some terminfo => do
            let (res, t) ← parse terminfo t
            pure (res, { t with loadResult := res })

end Nanorl
