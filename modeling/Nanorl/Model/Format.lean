import Mathlib.Tactic.Ring
import Nanorl.Model.Platform

/-!
# Nanorl.Model.Format

`format.c`: printing and scanning with the parameterized strings of terminfo.

Both functions walk a format string with a pointer that is tested for the
terminator only at the head of the loop. A `%` in front of the terminator takes
the terminator for its directive, and the loop goes on behind it: that is a
fault of the model.
-/

namespace Nanorl

/-- Conversion to `int32_t`. -/
def int32 (x : Int) : Int := x.bmod (2 ^ 32)

theorem int32_of_lt {x : Int} (hle : -2 ^ 31 ≤ x) (hlt : x < 2 ^ 31) : int32 x = x :=
  Int.bmod_eq_of_le (by omega) (by omega)

/-! ### Printing -/

/-- The digits of a number. -/
def digits (n : Nat) : List Byte :=
  (Nat.toDigits 10 n).map fun c => UInt8.ofNat c.toNat

/-- `sprintf("%d", x)` -/
def decimal (x : Int) : List Byte :=
  if x < 0 then 45 :: digits x.natAbs else digits x.natAbs

/-- The variables of `nrl_terminfo_string_format`: the output, the value stack
with its top first, and the parameter list. -/
structure FormatState where
  out : List Byte
  st : List Int
  plist : Nat → Int

/-- The loop of `nrl_terminfo_string_format`; nothing for an error return.
Literals are pushed one at a time. -/
def formatLoop : List Byte → FormatState → Except Fault (Option (List Byte))
  | [], s => .ok (some s.out)
  | c :: fmt, s =>
    if c ≠ 37 then formatLoop fmt { s with out := s.out ++ [c] }
    else
      match fmt with
      | [] => .error .outOfBounds
      -- 'p'
      | 112 :: [] => .ok none
      | 112 :: c :: fmt =>
        if c < 49 ∨ c > 57 then .ok none
        else formatLoop fmt { s with st := s.plist (c.toNat - 49) :: s.st }
      -- 'i'
      | 105 :: fmt =>
        formatLoop fmt { s with plist := fun k => if k < 2 then int32 (s.plist k + 1) else s.plist k }
      -- 'd'
      | 100 :: fmt =>
        match s.st with
        | [] => .ok none
        | scratch :: st => formatLoop fmt { s with out := s.out ++ decimal scratch, st }
      | _ :: fmt => formatLoop fmt s

/-- `nrl_terminfo_string_format`; `plist` has nine entries. -/
def nrlTerminfoStringFormat (fmt : List Byte) (args : List Int) :
    Except Fault (Option (List Byte)) :=
  if args.length > 9 then .error .outOfBounds
  else formatLoop fmt { out := [], st := [], plist := fun k => (args[k]?).getD 0 }

/-! ### Scanning -/

/-- `isspace` -/
def isSpace (c : Byte) : Bool := c = 32 || (9 ≤ c && c ≤ 13)

/-- `isdigit` -/
def isDigit (c : Byte) : Bool := 48 ≤ c && c ≤ 57

/-- The number a digit string stands for. -/
def digitsValue (ds : List Byte) : Nat := ds.foldl (fun n d => 10 * n + (d.toNat - 48)) 0

/-- `strtol(data, &endptr, 10)`: the value, clamped to 64 bits, and `endptr`. -/
def strtol (data : List Byte) : Int × List Byte :=
  let rest := data.dropWhile isSpace
  let (negative, rest) :=
    match rest with
    | 45 :: rest => (true, rest)
    | 43 :: rest => (false, rest)
    | rest => (false, rest)
  let ds := rest.takeWhile isDigit
  if ds = [] then (0, data)
  else if negative then (max (-(digitsValue ds : Int)) (-2 ^ 63), rest.drop ds.length)
  else (min (digitsValue ds : Int) (2 ^ 63 - 1), rest.drop ds.length)

/-- The variables of `nrl_terminfo_string_parse2` and the two targets, which
hold nothing before they are set. -/
structure ParseState where
  iFlag : Bool
  currentP : Nat
  p1 : Option Int
  p2 : Option Int
  deriving Repr, DecidableEq

/-- The return of `nrl_terminfo_string_parse2` at the end of the format. -/
def parseEnd (s : ParseState) : Except Fault (Bool × Option Int × Option Int) :=
  if s.iFlag then
    match s.p1, s.p2 with
    | some p1, some p2 => .ok (true, some (int32 (p1 - 1)), some (int32 (p2 - 1)))
    | _, _ => .error .uninitialised
  else .ok (true, s.p1, s.p2)

/-- The loop of `nrl_terminfo_string_parse2`. -/
def parseLoop : List Byte → List Byte → ParseState → Except Fault (Bool × Option Int × Option Int)
  | [], _, s => parseEnd s
  | _ :: _, [], s => .ok (false, s.p1, s.p2)
  | c :: fmt, d :: data, s =>
    if c ≠ 37 then
      if c ≠ d then .ok (false, s.p1, s.p2) else parseLoop fmt data s
    else
      match fmt with
      | [] => .error .outOfBounds
      -- 'i'
      | 105 :: fmt => parseLoop fmt (d :: data) { s with iFlag := true }
      -- 'd'
      | 100 :: fmt =>
        let value := int32 (strtol (d :: data)).1
        let endptr := (strtol (d :: data)).2
        match s.currentP with
        | 0 =>
          if value = 0 then .ok (false, some value, s.p2)
          else parseLoop fmt endptr { s with p1 := some value, currentP := 1 }
        | 1 =>
          if value = 0 then .ok (false, s.p1, some value)
          else parseLoop fmt endptr { s with p2 := some value, currentP := 2 }
        | _ => .ok (false, s.p1, s.p2)
      | _ :: fmt => parseLoop fmt (d :: data) s

/-- `nrl_terminfo_string_parse2`, with what it leaves in its targets. -/
def nrlTerminfoStringParse2 (fmt data : List Byte) (p1 p2 : Option Int) :
    Except Fault (Bool × Option Int × Option Int) :=
  parseLoop fmt data { iFlag := false, currentP := 0, p1, p2 }

end Nanorl
