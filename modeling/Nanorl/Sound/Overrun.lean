import Nanorl.Sound.Directives

/-!
# Nanorl.Sound.Overrun

Where the functions of `format.c` leave their strings.

The loops of both test for the terminator at their heads, and read the letter behind a `%`
without a test. The letter of a `%p` is tested for a digit, which refuses the terminator;
the one of the directive itself is not, and the `switch` ignores a terminator as it ignores
an unknown letter. So a format that ends in a `%` is left, unless the scan has ended before
(`scans_inside_iff`).
-/

namespace Nanorl

open StackLanguage

/-- Nothing is read or written behind the end of a string or an array. -/
def Inside {α : Type} (outcome : Except Fault α) : Prop := outcome ≠ .error .outOfBounds

/-! ### Printing -/

theorem formatEnd_inside_iff (out : List Byte) (dangling : Bool) (printed : Option (List Byte)) :
    Inside (formatEnd out dangling printed) ↔ (dangling = true → printed = none) := by
  cases printed with
  | none => simp [Inside, formatEnd]
  | some text => cases dangling <;> simp [Inside, formatEnd]

theorem stringFormat_inside_iff (fmt : CString) (args : List Int) :
    Inside (stringFormat fmt args) ↔
      args.length ≤ 9 ∧ ((directives fmt.text).2 = true → Stops 0 (directives fmt.text).1) := by
  by_cases hlength : args.length ≤ 9
  · rw [stringFormat_directives fmt hlength, formatEnd_inside_iff, eval_eq_none_iff, List.length_nil,
      and_iff_right hlength]
  · have hfault : stringFormat fmt args = .error .outOfBounds := by
      rw [stringFormat, loadArgs, if_pos (Nat.lt_of_not_le hlength)]
      rfl
    simp [Inside, hfault, hlength]

/-! ### Scanning -/

/-- The data follows these items and goes on where the last of them is read, and it reports
two numbers at most, none of which is zero as an `int32_t`. -/
def Outlasts (items : List FormatItem) (data : List Byte) : Prop :=
  ∃ numbers, reported items data = some numbers ∧ numbers.length ≤ 2 ∧
    ∀ n ∈ numbers, int32 (clampLong n) ≠ 0

theorem stringParse2_inside_iff (fmt data : CString) (p1 p2 : Option Int) :
    Inside (stringParse2 fmt data p1 p2) ↔
      ((formatParts fmt.text).2 = true → ¬ Outlasts (formatParts fmt.text).1 data.text) := by
  rw [Inside, stringParse2_eq, nrlTerminfoStringParse2, ne_eq, parseLoop_outOfBounds_iff (Nat.zero_le 2),
    not_and]
  simp only [Nat.zero_add, Outlasts]

/-! ### Both -/

/-- **Inside the strings.** The scan of a format stays inside its strings exactly if it does
not come to a `%` that ends the format: printing, because there is an error before, and
scanning, because the data does not follow the format so far. There is room for nine
arguments. -/
theorem scans_inside_iff (fmt : CString) :
    (∀ args : List Int, Inside (stringFormat fmt args) ↔
      args.length ≤ 9 ∧ ((directives fmt.text).2 = true → Stops 0 (directives fmt.text).1)) ∧
    (∀ (data : CString) (p1 p2 : Option Int), Inside (stringParse2 fmt data p1 p2) ↔
      ((formatParts fmt.text).2 = true → ¬ Outlasts (formatParts fmt.text).1 data.text)) :=
  ⟨stringFormat_inside_iff fmt, stringParse2_inside_iff fmt⟩

/-- A control sequence introducer with a bare `%`. -/
def bareDirective : CString where
  text := ascii "\x1b[%"
  plain := by decide

/-- It prints a position, and scans the report of one, from behind its terminator. -/
theorem bareDirective_overruns : ¬ Inside (stringFormat bareDirective [2, 4]) ∧
    ¬ Inside (stringParse2 bareDirective ⟨ascii "\x1b[3;5R", by decide⟩ none none) := by
  constructor
  · exact fun h => h rfl
  · exact fun h => h (by decide +kernel)

end Nanorl
