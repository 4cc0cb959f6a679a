import Nanorl.Sound.Emulator
import Nanorl.Sound.Scan

/-!
# Nanorl.Sound.RoundTrip

What `nrl_terminfo_string_format` prints, `nrl_terminfo_string_parse2` scans.

The two functions read one directive language with different means: a stack and a
list of parameters here, a counter and `strtol` there, one added before the first
number here and taken away at the end there. The formats are those of a position
(`PositionFormat`): a terminal given the request prints a report, and the report
parsed with the format itself gives the position back (`parse2_format`).
-/

namespace Nanorl

/-- A format of two numbers that count from one, with what makes it readable: literals
are plain, and no literal behind a number begins with a digit. -/
structure PositionFormat where
  /-- The literal in front of `%i`. -/
  head : List Byte
  /-- The literal between `%i` and the first number. -/
  lead : List Byte
  /-- The literal between the numbers. -/
  separator : List Byte
  /-- The literal behind the second number. -/
  tail : List Byte
  plain : 37 ∉ head ++ lead ++ separator ++ tail
  separator_ne_nil : separator ≠ []
  separator_head : ∀ c ∈ separator.head?, isDigit c = false
  tail_head : ∀ c ∈ tail.head?, isDigit c = false

namespace PositionFormat

/-- The format as a report is parsed with it. -/
def report (f : PositionFormat) : List Byte :=
  f.head ++ ascii "%i" ++ f.lead ++ ascii "%d" ++ f.separator ++ ascii "%d" ++ f.tail

/-- The format as a position is printed with it. -/
def request (f : PositionFormat) : List Byte :=
  f.head ++ ascii "%i" ++ f.lead ++ ascii "%p1%d" ++ f.separator ++ ascii "%p2%d" ++ f.tail

/-- The text between the two ends for a row and a column that count from zero. -/
def text (f : PositionFormat) (row col : Nat) : List Byte :=
  f.head ++ (f.lead ++ (digits (row + 1) ++ (f.separator ++ (digits (col + 1) ++ f.tail))))

end PositionFormat

/-! ### Literals -/

theorem formatLoop_literal {l : List Byte} (hl : 37 ∉ l) (fmt : List Byte) :
    ∀ s : FormatState, formatLoop (l ++ fmt) s = formatLoop fmt { s with out := s.out ++ l } := by
  induction l with
  | nil => intro s; simp
  | cons c l ih =>
    intro s
    rw [List.mem_cons, not_or] at hl
    obtain ⟨hc, hl⟩ := hl
    rw [List.cons_append]
    conv_lhs => unfold formatLoop
    rw [if_pos (Ne.symm hc), ih hl]
    simp only [List.append_assoc, List.cons_append, List.nil_append]

theorem parseLoop_literal {l : List Byte} (hl : 37 ∉ l) (fmt data : List Byte) (s : ParseState) :
    parseLoop (l ++ fmt) (l ++ data) s = parseLoop fmt data s := by
  induction l with
  | nil => rfl
  | cons c l ih =>
    rw [List.mem_cons, not_or] at hl
    obtain ⟨hc, hl⟩ := hl
    rw [List.cons_append, List.cons_append, ← ih hl]
    conv_lhs => unfold parseLoop
    rw [if_pos (Ne.symm hc), if_neg (by simp)]

/-! ### Numbers -/

theorem isDigit_of_mem {n : Nat} {b : Byte} (h : b ∈ digits n) : isDigit b = true := by
  have hbounds := digits_bounds h
  simp only [isDigit, Bool.and_eq_true, decide_eq_true_eq, UInt8.le_iff_toNat_le]
  exact ⟨hbounds.1, Nat.le_of_lt_succ hbounds.2⟩

theorem digits_ne_nil (n : Nat) : digits n ≠ [] := by
  rw [digits, ne_eq, List.map_eq_nil_iff]
  exact Nat.toDigits_ne_nil

/-- A digit is neither white space nor a sign. -/
theorem leadingSign_of_digit {b : Byte} (hb : isDigit b = true) (rest : List Byte) :
    leadingSign ((b :: rest).dropWhile isSpace) = (false, b :: rest) := by
  rw [isDigit, Bool.and_eq_true, decide_eq_true_eq, decide_eq_true_eq] at hb
  have hspace : isSpace b = false := by
    rw [isSpace]
    grind
  rw [List.dropWhile_cons_of_neg (by simp [hspace])]
  unfold leadingSign
  split
  · rename_i heq
    obtain ⟨rfl, -⟩ := List.cons.inj heq
    exact absurd hb.1 (by decide)
  · rename_i heq
    obtain ⟨rfl, -⟩ := List.cons.inj heq
    exact absurd hb.1 (by decide)
  · rfl

/-- `strtol` stops behind the digits of a number. -/
theorem leadingNumber_append {ds rest : List Byte} (hne : ds ≠ []) (hdigits : ∀ d ∈ ds, isDigit d = true)
    (hrest : ∀ c ∈ rest.head?, isDigit c = false) :
    leadingNumber (ds ++ rest) = ((digitsValue ds : Int), rest) := by
  have htake : (ds ++ rest).takeWhile isDigit = ds := by
    rw [List.takeWhile_append_of_pos hdigits]
    cases rest with
    | nil => simp
    | cons c rest => simp [hrest c rfl]
  have hsign : leadingSign ((ds ++ rest).dropWhile isSpace) = (false, ds ++ rest) := by
    obtain ⟨b, bs, rfl⟩ := List.exists_cons_of_ne_nil hne
    exact leadingSign_of_digit (hdigits b List.mem_cons_self) _
  rw [leadingNumber, hsign]
  dsimp only
  rw [htake, if_neg hne, List.drop_left]
  simp

theorem leadingNumber_digits (n : Nat) {tail : List Byte} (htail : ∀ c ∈ tail.head?, isDigit c = false) :
    leadingNumber (digits n ++ tail) = ((n : Int), tail) := by
  rw [leadingNumber_append (digits_ne_nil n) (fun b hb => isDigit_of_mem hb) htail, digitsValue_digits]

theorem strtol_digits {n : Nat} (hn : n < 2 ^ 31) {tail : List Byte}
    (htail : ∀ c ∈ tail.head?, isDigit c = false) :
    int32 (strtol (digits n ++ tail)).1 = n ∧ (strtol (digits n ++ tail)).2 = tail := by
  rw [strtol_eq, leadingNumber_digits n htail]
  refine ⟨?_, rfl⟩
  have hclamp : clampLong n = n := by
    unfold clampLong
    omega
  exact (congrArg int32 hclamp).trans (int32_of_lt (by omega) (by omega))

/-- The state behind a number that is not zero. -/
theorem parseLoop_number {n : Nat} (hpos : 0 < n) (hn : n < 2 ^ 31) {tail : List Byte}
    (htail : ∀ c ∈ tail.head?, isDigit c = false) (fmt : List Byte) (s : ParseState) :
    (s.currentP = 0 → parseLoop (37 :: 100 :: fmt) (digits n ++ tail) s =
      parseLoop fmt tail { s with p1 := some n, currentP := 1 }) ∧
    (s.currentP = 1 → parseLoop (37 :: 100 :: fmt) (digits n ++ tail) s =
      parseLoop fmt tail { s with p2 := some n, currentP := 2 }) := by
  obtain ⟨hvalue, hend⟩ := strtol_digits hn htail
  obtain ⟨b, bs, hb⟩ := List.exists_cons_of_ne_nil (digits_ne_nil n)
  rw [hb, List.cons_append] at hvalue hend ⊢
  have hne : (n : Int) ≠ 0 := by omega
  constructor <;>
  · intro hcurrent
    simp only [parseLoop, ne_eq, not_true_eq_false, if_false, hvalue, hend, hcurrent, if_neg hne]

/-! ### Positions -/

namespace PositionFormat

variable (f : PositionFormat)

theorem plain_parts : 37 ∉ f.head ∧ 37 ∉ f.lead ∧ 37 ∉ f.separator ∧ 37 ∉ f.tail := by
  have h := f.plain
  simp only [List.mem_append, not_or] at h
  exact ⟨h.1.1.1, h.1.1.2, h.1.2, h.2⟩

theorem format_request {row col : Nat} (hrow : row + 1 < 2 ^ 31) (hcol : col + 1 < 2 ^ 31) :
    nrlTerminfoStringFormat f.request [row, col] = .ok (some (f.text row col)) := by
  obtain ⟨hhead, hlead, hseparator, htail⟩ := f.plain_parts
  have hrequest : f.request = f.head ++ (37 :: 105 :: (f.lead ++ (37 :: 112 :: 49 :: 37 :: 100 ::
      (f.separator ++ (37 :: 112 :: 50 :: 37 :: 100 :: (f.tail ++ [])))))) := by
    simp [request, show ascii "%i" = [37, 105] by decide,
      show ascii "%p1%d" = [37, 112, 49, 37, 100] by decide,
      show ascii "%p2%d" = [37, 112, 50, 37, 100] by decide]
  rw [nrlTerminfoStringFormat, if_neg (by simp), hrequest, formatLoop_literal hhead]
  simp only [formatLoop, ne_eq, not_true_eq_false, if_false]
  rw [formatLoop_literal hlead]
  simp only [formatLoop, ne_eq, not_true_eq_false, if_false]
  rw [if_neg (by decide), formatLoop_literal hseparator]
  simp only [formatLoop, ne_eq, not_true_eq_false, if_false]
  rw [if_neg (by decide), formatLoop_literal htail]
  simp [formatLoop, text, decimal_succ hrow, decimal_succ hcol]

theorem parse_report {row col : Nat} (hrow : row + 1 < 2 ^ 31) (hcol : col + 1 < 2 ^ 31)
    (p1 p2 : Option Int) :
    nrlTerminfoStringParse2 f.report (f.text row col) p1 p2 = .ok (true, some row, some col) := by
  obtain ⟨hhead, hlead, hseparator, htail⟩ := f.plain_parts
  have hreport : f.report = f.head ++ (37 :: 105 :: (f.lead ++ (37 :: 100 ::
      (f.separator ++ (37 :: 100 :: (f.tail ++ [])))))) := by
    simp [report, show ascii "%i" = [37, 105] by decide, show ascii "%d" = [37, 100] by decide]
  -- there is a number behind `%i`, so the report does not end there
  have hincrement : ∀ (fmt data : List Byte) (s : ParseState), data ≠ [] →
      parseLoop (37 :: 105 :: fmt) data s = parseLoop fmt data { s with iFlag := true } := by
    intro fmt data s hdata
    obtain ⟨d, data, rfl⟩ := List.exists_cons_of_ne_nil hdata
    rfl
  have hnumber : ∀ tail, f.lead ++ (digits (row + 1) ++ tail) ≠ [] := by
    intro tail h
    exact digits_ne_nil (row + 1) (List.append_eq_nil_iff.mp (List.append_eq_nil_iff.mp h).2).1
  have hbetween : ∀ c ∈ (f.separator ++ (digits (col + 1) ++ f.tail)).head?, isDigit c = false := by
    obtain ⟨b, bs, hb⟩ := List.exists_cons_of_ne_nil f.separator_ne_nil
    intro c hc
    refine f.separator_head c ?_
    rw [hb] at hc ⊢
    exact hc
  rw [nrlTerminfoStringParse2, hreport, text, parseLoop_literal hhead, hincrement _ _ _ (hnumber _),
    parseLoop_literal hlead, (parseLoop_number (Nat.succ_pos _) hrow hbetween _ _).1 rfl,
    parseLoop_literal hseparator, (parseLoop_number (Nat.succ_pos _) hcol f.tail_head _ _).2 rfl]
  have hend := parseLoop_literal htail [] []
  rw [List.append_nil] at hend
  rw [List.append_nil, hend]
  have hback : ∀ n : Nat, n + 1 < 2 ^ 31 → int32 (((n + 1 : Nat) : Int) - 1) = n := by
    intro n hn
    rw [int32_of_lt (by omega) (by omega)]
    omega
  simp only [parseLoop, parseEnd, if_true, hback row hrow, hback col hcol]

end PositionFormat

/-- **Print and parse are inverse.** For every position format and every row and column
that can be counted from one in an `int32_t`, printing yields a report, and parsing the
report with the format accepts it and gives both numbers back. -/
theorem parse2_format (f : PositionFormat) (row col : Int) (hrow : 0 ≤ row ∧ row < 2 ^ 31 - 1)
    (hcol : 0 ≤ col ∧ col < 2 ^ 31 - 1) (p1 p2 : Option Int) :
    ∃ text, nrlTerminfoStringFormat f.request [row, col] = .ok (some text) ∧
      nrlTerminfoStringParse2 f.report text p1 p2 = .ok (true, some row, some col) := by
  obtain ⟨r, rfl⟩ := Int.eq_ofNat_of_zero_le hrow.1
  obtain ⟨c, rfl⟩ := Int.eq_ofNat_of_zero_le hcol.1
  have hr : r + 1 < 2 ^ 31 := by omega
  have hc : c + 1 < 2 ^ 31 := by omega
  exact ⟨f.text r c, f.format_request hr hc, f.parse_report hr hc p1 p2⟩

/-- The format of `user6` on xterm. -/
def xtermPosition : PositionFormat where
  head := ascii "\x1b["
  lead := []
  separator := ascii ";"
  tail := ascii "R"
  plain := by decide
  separator_ne_nil := by decide
  separator_head := by
    intro c hc
    obtain rfl : (59 : Byte) = c := Option.some.inj hc
    rfl
  tail_head := by
    intro c hc
    obtain rfl : (82 : Byte) = c := Option.some.inj hc
    rfl

theorem parse2_format_xterm :
    ∃ text, nrlTerminfoStringFormat xtermPosition.request [23, 79] = .ok (some text) ∧
      nrlTerminfoStringParse2 xtermPosition.report text none none = .ok (true, some 23, some 79) :=
  parse2_format xtermPosition 23 79 (by decide) (by decide) none none

end Nanorl
