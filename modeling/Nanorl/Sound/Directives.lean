import Nanorl.Lib.StackLanguage
import Nanorl.Sound.Pointers

/-!
# Nanorl.Sound.Directives

The formats of terminfo as programs of a printing language with a stack.

`nrl_terminfo_string_format` runs the program its format is read as (`formatLoop_eq`),
with increments that wrap around. Of the supported fragment (`Directive`), every directive
is one instruction; and where no increment a run comes to overflows, the language is that
of terminfo (`stringFormat_fragment`).
-/

namespace Nanorl

open StackLanguage

/-! ### Programs -/

/-- The parameters are nine, and the first two of them are incremented. -/
def terminfoLanguage : Language Byte Nat Int where
  bump params k := if k < 2 then params k + 1 else params k
  form := decimal

/-- The same of `int32_t`. -/
def wrappedLanguage : Language Byte Nat Int where
  bump params k := if k < 2 then int32 (params k + 1) else params k
  form := decimal

/-- The program a format is read as, and whether a `%` in front of the terminator ends it. -/
def directives : List Byte → List (Instr Byte Nat) × Bool
  | [] => ([], false)
  | c :: fmt =>
    if c ≠ 37 then (directives fmt).map (.emit [c] :: ·) id
    else
      match fmt with
      | [] => ([], true)
      | 112 :: [] => ([.fail], false)
      | 112 :: c :: fmt =>
        if c < 49 ∨ c > 57 then ([.fail], false)
        else (directives fmt).map (.push (c.toNat - 49) :: ·) id
      | 105 :: fmt => (directives fmt).map (.bump :: ·) id
      | 100 :: fmt => (directives fmt).map (.print :: ·) id
      | _ :: fmt => directives fmt

theorem directives_literal {c : Byte} (hc : c ≠ 37) (fmt : List Byte) :
    directives (c :: fmt) = (directives fmt).map (.emit [c] :: ·) id := by
  rw [directives.eq_def]
  exact if_pos hc

theorem directives_other {c : Byte} (hp : c ≠ 112) (hi : c ≠ 105) (hd : c ≠ 100) (fmt : List Byte) :
    directives (37 :: c :: fmt) = directives fmt := by
  rw [directives, if_neg (by decide)]
  · exact fun h _ => hp h
  · exact fun _ _ h _ => hp h
  · exact hi
  · exact hd

/-- What comes of a program that has printed this much, or has stopped. -/
def formatEnd (out : List Byte) (dangling : Bool) : Option (List Byte) → Except Fault (Option (List Byte))
  | none => .ok none
  | some text => if dangling then .error .outOfBounds else .ok (some (out ++ text))

theorem formatEnd_map (out text : List Byte) (dangling : Bool) (printed : Option (List Byte)) :
    formatEnd out dangling (printed.map (text ++ ·)) = formatEnd (out ++ text) dangling printed := by
  cases printed with
  | none => rfl
  | some rest => simp only [Option.map_some, formatEnd, List.append_assoc]

/-- The loop runs the program. -/
theorem formatLoop_eq (fmt : List Byte) (s : FormatState) :
    formatLoop fmt s =
      formatEnd s.out (directives fmt).2 (eval wrappedLanguage (directives fmt).1 s.st s.plist) := by
  fun_induction formatLoop fmt s with
  | case1 s => simp [directives, eval, formatEnd]
  | case2 c fmt s hc ih =>
    rw [ih, directives_literal hc]
    exact (formatEnd_map _ _ _ _).symm
  | case3 c s hc =>
    obtain rfl := not_not.mp hc
    rfl
  | case4 c s hc =>
    obtain rfl := not_not.mp hc
    rfl
  | case5 c s hc n fmt hn =>
    obtain rfl := not_not.mp hc
    simp only [directives, if_pos hn]
    rfl
  | case6 c s hc n fmt hn ih =>
    obtain rfl := not_not.mp hc
    simp only [directives, if_neg hn]
    exact ih
  | case7 c s hc fmt ih =>
    obtain rfl := not_not.mp hc
    exact ih
  | case8 c s hc fmt hst =>
    obtain rfl := not_not.mp hc
    simp only [directives, hst]
    rfl
  | case9 c s hc fmt scratch st hst ih =>
    obtain rfl := not_not.mp hc
    rw [ih, hst]
    exact (formatEnd_map _ _ _ _).symm
  | case10 c s hc d fmt hp hpc hi hd ih =>
    obtain rfl := not_not.mp hc
    rw [ih, directives_other (ne_param hp hpc) hi hd]

/-- The parameters, which are zero where none are supplied. -/
def parameters (args : List Int) (k : Nat) : Int := (args[k]?).getD 0

theorem stringFormat_directives (fmt : CString) {args : List Int} (h : args.length ≤ 9) :
    stringFormat fmt args = formatEnd [] (directives fmt.text).2
      (eval wrappedLanguage (directives fmt.text).1 [] (parameters args)) := by
  rw [stringFormat_eq, nrlTerminfoStringFormat, if_neg (Nat.not_lt.mpr h), formatLoop_eq]
  rfl

/-! ### The fragment -/

/-- A part of a format of the supported fragment. Parameters are counted from zero. -/
inductive Directive
  | literal (c : Byte) (nonzero : c ≠ 0) (plain : c ≠ 37)
  | increment
  | param (n : Fin 9)
  | number

namespace Directive

def spelling : Directive → List Byte
  | literal c _ _ => [c]
  | increment => ascii "%i"
  | param n => ascii "%p" ++ [UInt8.ofNat (49 + n)]
  | number => ascii "%d"

def instr : Directive → Instr Byte Nat
  | literal c _ _ => .emit [c]
  | increment => .bump
  | param n => .push n
  | number => .print

theorem spelling_plain (d : Directive) : 0 ∉ d.spelling := by
  cases d with
  | literal c nonzero plain => simpa [spelling] using nonzero.symm
  | increment => decide
  | param n => decide +revert
  | number => decide

theorem instr_ne_fail (d : Directive) : d.instr ≠ .fail := by
  cases d <;> simp [instr]

end Directive

/-- The program of a format of the fragment. -/
def program (ds : List Directive) : List (Instr Byte Nat) := ds.map Directive.instr

/-- The format itself. -/
def formatOf (ds : List Directive) : CString where
  text := ds.flatMap Directive.spelling
  plain h := by
    obtain ⟨d, -, h⟩ := List.mem_flatMap.mp h
    exact d.spelling_plain h

/-- A format of the fragment is read as its program, to the end. -/
theorem directives_formatOf (ds : List Directive) : directives (formatOf ds).text = (program ds, false) := by
  induction ds with
  | nil => rfl
  | cons d ds ih =>
    have hcons : (formatOf (d :: ds)).text = d.spelling ++ (formatOf ds).text := List.flatMap_cons
    rw [hcons]
    cases d with
    | literal c nonzero plain => exact (directives_literal plain _).trans (congrArg (Prod.map (.emit [c] :: ·) id) ih)
    | increment => exact congrArg (Prod.map (Instr.bump :: ·) id) ih
    | number => exact congrArg (Prod.map (Instr.print :: ·) id) ih
    | param n =>
      have hdigit : ∀ n : Fin 9, ¬ (UInt8.ofNat (49 + n) < 49 ∨ UInt8.ofNat (49 + n) > 57) ∧
          (UInt8.ofNat (49 + n)).toNat - 49 = n := by
        decide
      have hparam : directives (37 :: 112 :: UInt8.ofNat (49 + n) :: (formatOf ds).text) =
          (directives (formatOf ds).text).map (.push n :: ·) id := by
        rw [directives, if_neg (by decide), if_neg (hdigit n).1, (hdigit n).2]
      exact hparam.trans (congrArg (Prod.map (Instr.push n.val :: ·) id) ih)

/-- No increment the program comes to overflows. -/
def IncrementsFit (prog : List (Instr Byte Nat)) (params : Nat → Int) : Prop :=
  ∀ front, front ++ [.bump] <+: prog → ¬ Stops 0 front →
    ∀ k < 2, params k + (front.countP Instr.isBump + 1) < 2 ^ 31

theorem terminfoLanguage_bump (n : Nat) (params : Nat → Int) (k : Nat) :
    terminfoLanguage.bump^[n] params k = if k < 2 then params k + n else params k := by
  induction n generalizing params with
  | zero => simp
  | succ n ih =>
    rw [Function.iterate_succ_apply, ih]
    simp only [terminfoLanguage]
    split
    · push_cast
      ring
    · rfl

theorem IncrementsFit.bumpsAlike {prog : List (Instr Byte Nat)} {params : Nat → Int}
    (h : IncrementsFit prog params) (hparams : ∀ k, -2 ^ 31 ≤ params k) :
    BumpsAlike wrappedLanguage terminfoLanguage prog 0 params := by
  intro front hfront hrun
  funext k
  have hk := h front hfront hrun k
  have hlow := hparams k
  simp only [wrappedLanguage]
  rw [show terminfoLanguage.bump (terminfoLanguage.bump^[front.countP Instr.isBump] params) k =
    if k < 2 then terminfoLanguage.bump^[front.countP Instr.isBump] params k + 1
    else terminfoLanguage.bump^[front.countP Instr.isBump] params k from rfl, terminfoLanguage_bump]
  split
  · exact int32_of_lt (by omega) (by omega)
  · rfl

/-- **The stack language.** A format of the fragment prints what its program prints in the
language of terminfo, and nothing exactly if a `%d` of it finds the stack empty. -/
theorem stringFormat_fragment {ds : List Directive} {args : List Int} (hlength : args.length ≤ 9)
    (hargs : ∀ a ∈ args, -2 ^ 31 ≤ a ∧ a < 2 ^ 31) (hfit : IncrementsFit (program ds) (parameters args)) :
    stringFormat (formatOf ds) args = .ok (eval terminfoLanguage (program ds) [] (parameters args)) ∧
      (eval terminfoLanguage (program ds) [] (parameters args) = none ↔ Underflows 0 (program ds)) := by
  have hparams : ∀ k, -2 ^ 31 ≤ parameters args k := by
    intro k
    unfold parameters
    cases ha : args[k]? with
    | none => decide
    | some a => exact (hargs a (List.mem_of_getElem? ha)).1
  have hsame : eval wrappedLanguage (program ds) [] (parameters args) =
      eval terminfoLanguage (program ds) [] (parameters args) :=
    eval_congr (show wrappedLanguage.form = terminfoLanguage.form from rfl) (hfit.bumpsAlike hparams)
  constructor
  · rw [stringFormat_directives _ hlength, directives_formatOf, hsame]
    cases eval terminfoLanguage (program ds) [] (parameters args) <;> rfl
  · have hfail : .fail ∉ program ds := by
      intro hmem
      obtain ⟨d, -, hd⟩ := List.mem_map.mp hmem
      exact d.instr_ne_fail hd
    rw [eval_eq_none_iff, List.length_nil, Stops, or_iff_right hfail]

/-- `cursor_address` of an xterm. -/
def cursorAddress : List Directive :=
  [.literal 27 (by decide) (by decide), .literal 91 (by decide) (by decide), .increment, .param 0, .number,
    .literal 59 (by decide) (by decide), .param 1, .number, .literal 72 (by decide) (by decide)]

/-- The third row and the fifth column, counted from zero. -/
theorem stringFormat_fragment_third :
    stringFormat (formatOf cursorAddress) [2, 4] = .ok (some (ascii "\x1b[3;5H")) := by
  have hfit : IncrementsFit (program cursorAddress) (parameters [2, 4]) := by
    rintro front hfront - k hk
    have hcount : front.countP Instr.isBump ≤ (program cursorAddress).countP Instr.isBump :=
      ((List.prefix_append _ _).trans hfront).sublist.countP_le
    have hone : (program cursorAddress).countP Instr.isBump = 1 := by decide
    have hparam : ∀ k < 2, parameters [2, 4] k ≤ 4 := by decide
    have := hparam k hk
    omega
  have hrun := (stringFormat_fragment (show [2, 4].length ≤ 9 by decide) (by simp) hfit).1
  have heval : eval terminfoLanguage (program cursorAddress) [] (parameters [2, 4]) =
      some (ascii "\x1b[3;5H") := by
    decide +kernel
  rwa [heval] at hrun

end Nanorl
