import Mathlib.Data.List.TakeWhile
import Nanorl.Sound.Pointers
import Nanorl.Sound.RoundTrip

/-!
# Nanorl.Sound.Rendering

What `nrl_terminfo_string_parse2` takes for a rendering of its format.

A rendering spells every number in plain digits (`Renders`). The numbers are read by
`strtol`, which skips blanks, takes a sign and knows wider numbers than an `int32_t` holds;
and any of them will do that is not zero in the end. So a rendering is all that is accepted
exactly of those data in which `strtol` finds nothing else (`stringParse2_rendering_iff`).
-/

namespace Nanorl

/-! ### Renderings -/

/-- The data begins with a rendering of the items with these numbers, each of which ends
where its digits end. -/
inductive Renders : List FormatItem → List Int → List Byte → Prop
  | nil (data : List Byte) : Renders [] [] data
  | literal (c : Byte) {items : List FormatItem} {numbers : List Int} {data : List Byte} :
    Renders items numbers data → Renders (.literal c :: items) numbers (c :: data)
  | increment {items : List FormatItem} {numbers : List Int} {data : List Byte} :
    Renders items numbers data → Renders (.increment :: items) numbers data
  | number {ds : List Byte} {items : List FormatItem} {numbers : List Int} {data : List Byte} :
    ds ≠ [] → (∀ d ∈ ds, isDigit d = true) → (∀ c ∈ data.head?, isDigit c = false) →
    digitsValue ds < 2 ^ 31 → Renders items numbers data →
    Renders (.number :: items) (digitsValue ds :: numbers) (ds ++ data)

/-- The data begins with a rendering of two numbers, and these are stored as they are counted,
from zero at least. -/
def Rendered (items : List FormatItem) (data : List Byte) (r : Option Int × Option Int) : Prop :=
  ∃ n₁ n₂, Renders items [n₁, n₂] data ∧
    r = (some (n₁ - countedFrom items), some (n₂ - countedFrom items)) ∧
    0 ≤ n₁ - countedFrom items ∧ 0 ≤ n₂ - countedFrom items

/-- The texts `strtol` is given at the numbers of the items. -/
def numberTexts : List FormatItem → List Byte → List (List Byte)
  | [], _ => []
  | .literal _ :: items, data => numberTexts items data.tail
  | .number :: items, data => data :: numberTexts items (leadingNumber data).2
  | .increment :: items, data | .other :: items, data => numberTexts items data

/-- The text begins with a number in plain digits that is an `int32_t`. -/
structure PlainNumber (text : List Byte) : Prop where
  digit : ∃ d ∈ text.head?, isDigit d = true
  fits : (leadingNumber text).1 < 2 ^ 31

/-- Such a text is digits, and then something else. -/
theorem PlainNumber.split {text : List Byte} (h : PlainNumber text) :
    ∃ ds rest, text = ds ++ rest ∧ ds ≠ [] ∧ (∀ d ∈ ds, isDigit d = true) ∧
      (∀ c ∈ rest.head?, isDigit c = false) ∧ digitsValue ds < 2 ^ 31 := by
  obtain ⟨⟨d, hd, hdigit⟩, hfits⟩ := h
  have hne : text.takeWhile isDigit ≠ [] := by
    obtain ⟨rest, rfl⟩ := List.head?_eq_some_iff.mp hd
    simp [hdigit]
  have hrest : ∀ c ∈ (text.dropWhile isDigit).head?, isDigit c = false := by
    intro c hc
    have hnot := List.head?_dropWhile_not isDigit text
    rwa [Option.mem_def.mp hc] at hnot
  have hdigits : ∀ d ∈ text.takeWhile isDigit, isDigit d = true := fun d hd => List.mem_takeWhile_imp hd
  have hnumber := leadingNumber_append hne hdigits hrest
  rw [List.takeWhile_append_dropWhile] at hnumber
  rw [hnumber] at hfits
  exact ⟨_, _, List.takeWhile_append_dropWhile.symm, hne, hdigits, hrest, Int.ofNat_lt.mp hfits⟩

/-- A rendering is plain wherever it is read as a number. -/
theorem Renders.plain {items : List FormatItem} {numbers : List Int} {data : List Byte}
    (h : Renders items numbers data) : ∀ text ∈ numberTexts items data, PlainNumber text := by
  induction h with
  | nil => simp [numberTexts]
  | literal c h ih => exact ih
  | increment h ih => exact ih
  | number hne hdigits hrest hfits h ih =>
    rename_i ds items numbers data
    have hnumber := leadingNumber_append hne hdigits hrest
    rw [numberTexts, hnumber, List.forall_mem_cons]
    refine ⟨⟨?_, ?_⟩, ih⟩
    · obtain ⟨d, ds, rfl⟩ := List.exists_cons_of_ne_nil hne
      exact ⟨d, rfl, hdigits d List.mem_cons_self⟩
    · rw [hnumber]
      exact Int.ofNat_lt.mpr hfits

theorem Renders.fits {items : List FormatItem} {numbers : List Int} {data : List Byte}
    (h : Renders items numbers data) : ∀ n ∈ numbers, 0 ≤ n ∧ n < 2 ^ 31 := by
  induction h with
  | nil => simp
  | literal c h ih => exact ih
  | increment h ih => exact ih
  | number hne hdigits hrest hfits h ih =>
    exact List.forall_mem_cons.mpr ⟨⟨Int.natCast_nonneg _, Int.ofNat_lt.mpr hfits⟩, ih⟩

/-- What follows the items with plain numbers is a rendering. -/
theorem Renders.of_reported {items : List FormatItem} {data : List Byte} {numbers : List Int}
    (h : reported items data = some numbers) (hother : .other ∉ items)
    (hplain : ∀ text ∈ numberTexts items data, PlainNumber text) : Renders items numbers data := by
  fun_induction reported items data generalizing numbers with
  | case1 data =>
    obtain rfl := Option.some.inj h
    exact .nil data
  | case2 => cases h
  | case3 items c data ih => exact (ih h (List.not_mem_of_not_mem_cons hother) hplain).literal c
  | case4 => cases h
  | case5 items d data ih =>
    obtain ⟨numbers, hreported, rfl⟩ := Option.map_eq_some_iff.mp h
    rw [numberTexts, List.forall_mem_cons] at hplain
    obtain ⟨ds, rest, hsplit, hne, hdigits, hrest, hfits⟩ := hplain.1.split
    have hnumber := leadingNumber_append hne hdigits hrest
    rw [hsplit] at hplain ih hreported ⊢
    rw [hnumber] at hplain ih hreported ⊢
    exact .number hne hdigits hrest hfits
      (ih hreported (List.not_mem_of_not_mem_cons hother) hplain.2)
  | case6 items d data ih => exact (ih h (List.not_mem_of_not_mem_cons hother) hplain).increment
  | case7 => exact absurd List.mem_cons_self hother

/-! ### Two numbers -/

theorem reported_length {items : List FormatItem} {data : List Byte} {numbers : List Int}
    (h : reported items data = some numbers) : numbers.length = items.count .number := by
  fun_induction reported items data generalizing numbers with
  | case1 data =>
    obtain rfl := Option.some.inj h
    rfl
  | case2 => cases h
  | case3 items c data ih => simpa using ih h
  | case4 => cases h
  | case5 items d data ih =>
    obtain ⟨numbers, hreported, rfl⟩ := Option.map_eq_some_iff.mp h
    rw [List.length_cons, List.count_cons_self, ih hreported]
  | case6 items d data ih => simpa using ih h
  | case7 items d data ih => simpa using ih h

theorem parseEnd_two (p1 p2 : Option Int) (items : List FormatItem) (n₁ n₂ : Int) :
    parseEnd (ParseState.behind { iFlag := false, currentP := 0, p1, p2 } items [n₁, n₂]) =
      .ok (true, some (targetOf items n₁), some (targetOf items n₂)) := by
  rw [targetOf_eq, targetOf_eq, ParseState.behind]
  by_cases hincrement : .increment ∈ items
  · rw [show countedFrom items = 1 from if_pos hincrement]
    simp [ParseState.store, parseEnd, hincrement]
  · have hid : ∀ n, int32 (int32 n) = int32 n := fun n => Int.bmod_bmod
    rw [show countedFrom items = 0 from if_neg hincrement]
    simp [ParseState.store, parseEnd, hincrement, hid]

/-- Of a format with two numbers, data is accepted that follows it, if neither number is zero
as an `int32_t`. -/
theorem stringParse2_eq_true_iff {fmt data : CString} {items : List FormatItem}
    (hitems : formatItems fmt.text = some items) (htwo : items.count .number = 2) (p1 p2 : Option Int)
    (r : Option Int × Option Int) :
    stringParse2 fmt data p1 p2 = .ok (true, r) ↔
      ∃ n₁ n₂, reported items data.text = some [n₁, n₂] ∧
        (∀ n ∈ [n₁, n₂], int32 (clampLong n) ≠ 0) ∧
        r = (some (targetOf items n₁), some (targetOf items n₂)) := by
  rw [stringParse2_eq, nrlTerminfoStringParse2, parseLoop_eq_true_iff (Nat.zero_le 2)]
  constructor
  · rintro ⟨items', numbers, hitems', hreported, -, hnumbers, hend⟩
    obtain rfl := Option.some.inj (hitems.symm.trans hitems')
    obtain ⟨n₁, n₂, rfl⟩ := List.length_eq_two.mp ((reported_length hreported).trans htwo)
    rw [parseEnd_two] at hend
    exact ⟨n₁, n₂, hreported, hnumbers, (Prod.mk.inj (Except.ok.inj hend)).2.symm⟩
  · rintro ⟨n₁, n₂, hreported, hnumbers, rfl⟩
    exact ⟨items, [n₁, n₂], hitems, hreported, by simp, hnumbers, parseEnd_two _ _ _ _ _⟩

/-- A number that fits is stored as it is counted. -/
theorem targetOf_of_fits (items : List FormatItem) {n : Int} (hle : 0 ≤ n) (hlt : n < 2 ^ 31)
    (hne : int32 (clampLong n) ≠ 0) :
    targetOf items n = n - countedFrom items ∧ 0 ≤ n - countedFrom items := by
  have hclamp : clampLong n = n := by
    unfold clampLong
    omega
  have hcounted : countedFrom items = 0 ∨ countedFrom items = 1 := by
    unfold countedFrom
    split <;> simp
  have hpos : n ≠ 0 := by
    rintro rfl
    exact hne (by decide)
  rw [targetOf, hclamp, int32_of_lt (by omega) (by omega)]
  omega

/-- **Renderings.** Of a format of literals, `%i` and two `%d`, the data is a rendering if it
is accepted, exactly if the numbers are plain that `strtol` finds in data that follows the
format with no number that is zero as an `int32_t`. -/
theorem stringParse2_rendering_iff {fmt : CString} {items : List FormatItem}
    (hitems : formatItems fmt.text = some items) (hother : .other ∉ items)
    (htwo : items.count .number = 2) (data : CString) (p1 p2 : Option Int) :
    (∀ r, stringParse2 fmt data p1 p2 = .ok (true, r) → Rendered items data.text r) ↔
      ∀ numbers, reported items data.text = some numbers → (∀ n ∈ numbers, int32 (clampLong n) ≠ 0) →
        ∀ text ∈ numberTexts items data.text, PlainNumber text := by
  constructor
  · intro h numbers hreported hnumbers
    obtain ⟨n₁, n₂, rfl⟩ := List.length_eq_two.mp ((reported_length hreported).trans htwo)
    obtain ⟨n₁', n₂', hrenders, -⟩ :=
      h _ ((stringParse2_eq_true_iff hitems htwo p1 p2 _).mpr ⟨n₁, n₂, hreported, hnumbers, rfl⟩)
    exact hrenders.plain
  · intro h r hr
    obtain ⟨n₁, n₂, hreported, hnumbers, rfl⟩ := (stringParse2_eq_true_iff hitems htwo p1 p2 r).mp hr
    have hrenders := Renders.of_reported hreported hother (h _ hreported hnumbers)
    have htarget : ∀ n ∈ [n₁, n₂], targetOf items n = n - countedFrom items ∧ 0 ≤ n - countedFrom items :=
      fun n hn => targetOf_of_fits items (hrenders.fits n hn).1 (hrenders.fits n hn).2 (hnumbers n hn)
    obtain ⟨hvalue₁, hle₁⟩ := htarget n₁ (by simp)
    obtain ⟨hvalue₂, hle₂⟩ := htarget n₂ (by simp)
    exact ⟨n₁, n₂, hrenders, by rw [hvalue₁, hvalue₂], hle₁, hle₂⟩

/-- `user6` of an xterm. -/
def xtermReport : CString where
  text := ascii "\x1b[%i%d;%dR"
  plain := by decide

def xtermReportItems : List FormatItem :=
  [.literal 27, .literal 91, .increment, .number, .literal 59, .number, .literal 82]

theorem formatItems_xtermReport : formatItems xtermReport.text = some xtermReportItems := by
  decide +kernel

/-- The cursor is in the third row and the fifth column. -/
theorem stringParse2_rendering_third :
    Rendered xtermReportItems (ascii "\x1b[3;5R") (some 2, some 4) := by
  have hcondition : ∀ numbers, reported xtermReportItems (ascii "\x1b[3;5R") = some numbers →
      (∀ n ∈ numbers, int32 (clampLong n) ≠ 0) →
      ∀ text ∈ numberTexts xtermReportItems (ascii "\x1b[3;5R"), PlainNumber text := by
    rintro numbers - - text htext
    have htexts : numberTexts xtermReportItems (ascii "\x1b[3;5R") = [ascii "3;5R", ascii "5R"] := by
      decide +kernel
    rw [htexts, List.mem_pair] at htext
    obtain rfl | rfl := htext
    · exact ⟨⟨51, rfl, rfl⟩, by decide +kernel⟩
    · exact ⟨⟨53, rfl, rfl⟩, by decide +kernel⟩
  exact (stringParse2_rendering_iff formatItems_xtermReport (by decide) (by decide)
    ⟨ascii "\x1b[3;5R", by decide⟩ none none).mpr hcondition _ (by decide +kernel)

/-- Minus five is no row, but it is accepted and stored as one. -/
theorem stringParse2_rendering_negative :
    ¬ ∀ r, stringParse2 xtermReport ⟨ascii "\x1b[-5;3R", by decide⟩ none none = .ok (true, r) →
      Rendered xtermReportItems (ascii "\x1b[-5;3R") r := by
  intro h
  have haccepted : stringParse2 xtermReport ⟨ascii "\x1b[-5;3R", by decide⟩ none none =
      .ok (true, some (-6), some 2) := by
    decide +kernel
  obtain ⟨n₁, n₂, -, hstored, hle, -⟩ := h _ haccepted
  have hrow : -6 = n₁ - countedFrom xtermReportItems := Option.some.inj (Prod.mk.inj hstored).1
  omega

end Nanorl
