import Nanorl.Model.Format

/-!
# Nanorl.Model.Pointers

`format.c` with the pointers it walks its strings with.

`Nanorl.Model.Format` takes a string for the list of its characters, and every literal
for printed where it is read. Here a pointer is the memory from where it points up to the
terminator of its string, the terminator included, and a read behind that is a fault. The
output is filled as in the source: `last_added` trails behind, and a directive or the end
of the format pushes what is between the two pointers.
-/

namespace Nanorl

/-- A NUL-terminated string. -/
structure CString where
  text : List Byte
  plain : 0 ∉ text

/-- A pointer to the string. -/
def CString.pointer (s : CString) : List Byte := s.text ++ [0]

/-! ### Printing -/

/-- `vec_bulk_push(&out, last_added, fmt - last_added - 1)` -/
def bulkPush (out lastAdded fmt : List Byte) : List Byte :=
  out ++ lastAdded.take (lastAdded.length - fmt.length - 1)

/-- The loop of `nrl_terminfo_string_format`, with `fmt` and `last_added`. -/
def formatWalk : List Byte → List Byte → FormatState → Except Fault (Option (List Byte))
  | [], _, _ => .error .outOfBounds
  | c :: fmt, lastAdded, s =>
    if c = 0 then .ok (some (bulkPush s.out lastAdded fmt))
    else if c ≠ 37 then formatWalk fmt lastAdded s
    else
      let out := bulkPush s.out lastAdded fmt
      match fmt with
      | [] => .error .outOfBounds
      -- 'p'
      | 112 :: [] => .error .outOfBounds
      | 112 :: c :: fmt =>
        if c < 49 ∨ c > 57 then .ok none
        else formatWalk fmt fmt { s with out, st := s.plist (c.toNat - 49) :: s.st }
      -- 'i'
      | 105 :: fmt =>
        formatWalk fmt fmt
          { s with out, plist := fun k => if k < 2 then int32 (s.plist k + 1) else s.plist k }
      -- 'd'
      | 100 :: fmt =>
        match s.st with
        | [] => .ok none
        | scratch :: st => formatWalk fmt fmt { s with out := out ++ decimal scratch, st }
      | _ :: fmt => formatWalk fmt fmt { s with out }

/-- `plist`, filled with the arguments. -/
def loadArgs (args : List Int) : Except Fault (Nat → Int) :=
  if args.length > 9 then .error .outOfBounds else .ok fun k => (args[k]?).getD 0

/-- `nrl_terminfo_string_format` -/
def stringFormat (fmt : CString) (args : List Int) : Except Fault (Option (List Byte)) := do
  let plist ← loadArgs args
  formatWalk fmt.pointer fmt.pointer { out := [], st := [], plist }

/-! ### Scanning -/

/-- `strtol(data, &endptr, 10)`, which takes a string. -/
def strtolWalk (data : List Byte) : Except Fault (Int × List Byte) :=
  if 0 ∈ data then
    let (value, rest) := strtol (cstr data)
    .ok (value, data.drop ((cstr data).length - rest.length))
  else .error .outOfBounds

/-- `case 'd'` of `nrl_terminfo_string_parse2`: whether the loop goes on, and from where. -/
def scanNumber (data : List Byte) (s : ParseState) : Except Fault (Bool × List Byte × ParseState) :=
  if s.currentP > 1 then .ok (false, data, s)
  else do
    let (value, endptr) ← strtolWalk data
    let target := some (int32 value)
    let s := if s.currentP = 0 then { s with p1 := target } else { s with p2 := target }
    if int32 value = 0 then pure (false, data, s)
    else pure (true, endptr, { s with currentP := s.currentP + 1 })

/-- The loop of `nrl_terminfo_string_parse2`, with `fmt` and `data`. -/
def parseWalk : List Byte → List Byte → ParseState → Except Fault (Bool × Option Int × Option Int)
  | [], _, _ => .error .outOfBounds
  | c :: fmt, data, s =>
    if c = 0 then parseEnd s
    else
      match data with
      | [] => .error .outOfBounds
      | d :: data =>
        if d = 0 then .ok (false, s.p1, s.p2)
        else if c ≠ 37 then
          if c ≠ d then .ok (false, s.p1, s.p2) else parseWalk fmt data s
        else
          match fmt with
          | [] => .error .outOfBounds
          -- 'i'
          | 105 :: fmt => parseWalk fmt (d :: data) { s with iFlag := true }
          -- 'd'
          | 100 :: fmt =>
            match scanNumber (d :: data) s with
            | .error fault => .error fault
            | .ok (false, _, s) => .ok (false, s.p1, s.p2)
            | .ok (true, endptr, s) => parseWalk fmt endptr s
          | _ :: fmt => parseWalk fmt (d :: data) s

/-- `nrl_terminfo_string_parse2` -/
def stringParse2 (fmt data : CString) (p1 p2 : Option Int) :
    Except Fault (Bool × Option Int × Option Int) :=
  parseWalk fmt.pointer data.pointer { iFlag := false, currentP := 0, p1, p2 }

end Nanorl
