import Nanorl.Model.Pointers
import Nanorl.Sound.Scan

/-!
# Nanorl.Sound.Pointers

The walks of `format.c` against its functions of strings.

Of a format without a zero, the memory behind a pointer is the rest of the text and a
terminator. Behind `last_added` there are the literals that have not been pushed, and then
that memory: so a walk is the function of strings with the literals pushed
(`formatWalk_eq`, `parseWalk_eq`), and a fault of the one is a fault of the other.
-/

namespace Nanorl

/-! ### Printing -/

/-- What a directive or the end of the format pushes. -/
theorem bulkPush_eq (out literals fmt : List Byte) (c : Byte) :
    bulkPush out (literals ++ c :: fmt) fmt = out ++ literals := by
  have hlength : (literals ++ c :: fmt).length - fmt.length - 1 = literals.length := by
    rw [List.length_append, List.length_cons]
    omega
  rw [bulkPush, hlength, List.take_left]

/-- A letter that is no `p`, as both loops tell it. -/
theorem ne_param {c : Byte} {fmt : List Byte} (hend : c = 112 → fmt = [] → False)
    (hdigit : ∀ d rest, c = 112 → fmt = d :: rest → False) : c ≠ 112 := by
  rintro rfl
  cases fmt with
  | nil => exact hend rfl rfl
  | cons d rest => exact hdigit d rest rfl rfl

theorem formatWalk_other {c : Byte} (hp : c ≠ 112) (hi : c ≠ 105) (hd : c ≠ 100) (fmt lastAdded : List Byte)
    (s : FormatState) : formatWalk (37 :: c :: fmt) lastAdded s =
      formatWalk fmt fmt { s with out := bulkPush s.out lastAdded (c :: fmt) } := by
  rw [formatWalk, if_neg (by decide), if_neg (by decide)]
  dsimp only
  split
  · contradiction
  · rename_i heq
    exact absurd (List.cons.inj heq).1 hp
  · rename_i heq
    exact absurd (List.cons.inj heq).1 hp
  · rename_i heq
    exact absurd (List.cons.inj heq).1 hi
  · rename_i heq
    exact absurd (List.cons.inj heq).1 hd
  · rename_i heq
    obtain ⟨-, rfl⟩ := List.cons.inj heq
    rfl

/-- The walk with literals that have not been pushed is the loop that has pushed them. -/
theorem formatWalk_eq {fmt : List Byte} (h : 0 ∉ fmt) (literals : List Byte) (s : FormatState) :
    formatWalk (fmt ++ [0]) (literals ++ (fmt ++ [0])) s =
      formatLoop fmt { s with out := s.out ++ literals } := by
  generalize hs : { s with out := s.out ++ literals } = s'
  fun_induction formatLoop fmt s' generalizing s literals with
  | case1 s' =>
    subst hs
    rw [List.nil_append, formatWalk, if_pos rfl, bulkPush_eq]
  | case2 c fmt s' hc ih =>
    subst hs
    obtain ⟨h0, h⟩ := List.ne_and_not_mem_of_not_mem_cons h
    have hwalk := ih h (literals ++ [c]) s (by simp)
    rw [List.append_assoc] at hwalk
    rw [List.cons_append, formatWalk, if_neg h0.symm, if_pos hc]
    exact hwalk
  | case3 c s' hc =>
    obtain rfl := not_not.mp hc
    rfl
  | case4 c s' hc =>
    obtain rfl := not_not.mp hc
    rfl
  | case5 c s' hc n fmt hn =>
    obtain rfl := not_not.mp hc
    simp only [List.cons_append, formatWalk, if_pos hn]
    rfl
  | case6 c s' hc n fmt hn ih =>
    obtain rfl := not_not.mp hc
    subst hs
    simp only [List.mem_cons, not_or] at h
    simp only [List.cons_append, formatWalk, bulkPush_eq, if_neg hn]
    exact ih h.2.2.2 [] _ (by simp)
  | case7 c s' hc fmt ih =>
    obtain rfl := not_not.mp hc
    subst hs
    simp only [List.mem_cons, not_or] at h
    simp only [List.cons_append, formatWalk, bulkPush_eq]
    exact ih h.2.2 [] _ (by simp)
  | case8 c s' hc fmt hst =>
    obtain rfl := not_not.mp hc
    subst hs
    dsimp only at hst
    simp only [List.cons_append, formatWalk, hst]
    rfl
  | case9 c s' hc fmt scratch st hst ih =>
    obtain rfl := not_not.mp hc
    subst hs
    simp only [List.mem_cons, not_or] at h
    dsimp only at hst
    simp only [List.cons_append, formatWalk, bulkPush_eq, hst]
    exact ih h.2.2 [] _ (by simp)
  | case10 c s' hc d fmt hp hpc hi hd ih =>
    obtain rfl := not_not.mp hc
    subst hs
    simp only [List.mem_cons, not_or] at h
    rw [List.cons_append, List.cons_append, formatWalk_other (ne_param hp hpc) hi hd, bulkPush_eq]
    exact ih h.2.2 [] _ (by simp)

theorem stringFormat_eq (fmt : CString) (args : List Int) :
    stringFormat fmt args = nrlTerminfoStringFormat fmt.text args := by
  rw [stringFormat, nrlTerminfoStringFormat, loadArgs]
  split
  · rfl
  · rw [Run.ok_bind]
    exact (formatWalk_eq fmt.plain [] _).trans (by rw [List.append_nil])

/-! ### Scanning -/

/-- What is left behind a number is the end of the text. -/
theorem leadingNumber_suffix (data : List Byte) : (leadingNumber data).2 <:+ data := by
  have hsign : (leadingSign (data.dropWhile isSpace)).2 <:+ data := by
    have hspace : data.dropWhile isSpace <:+ data := List.dropWhile_suffix isSpace
    generalize data.dropWhile isSpace = rest at hspace
    unfold leadingSign
    split
    · exact (List.suffix_cons _ _).trans hspace
    · exact (List.suffix_cons _ _).trans hspace
    · exact hspace
  unfold leadingNumber
  dsimp only
  split
  · exact List.suffix_rfl
  · exact (List.drop_suffix _ _).trans hsign

/-- On a string, the pointer behind the number points at the rest of the string. -/
theorem strtolWalk_eq {data : List Byte} (h : 0 ∉ data) :
    strtolWalk (data ++ [0]) = .ok ((strtol data).1, (strtol data).2 ++ [0]) := by
  have hdrop : (data ++ [0]).drop (data.length - (strtol data).2.length) = (strtol data).2 ++ [0] := by
    have hsuffix : (strtol data).2 <:+ data := by
      rw [strtol_eq]
      exact leadingNumber_suffix data
    obtain ⟨front, hfront⟩ := hsuffix
    generalize (strtol data).2 = rest at hfront
    subst hfront
    have hlength : (front ++ rest).length - rest.length = front.length := by
      rw [List.length_append, Nat.add_sub_cancel]
    rw [hlength, List.append_assoc, List.drop_left]
  rw [strtolWalk, if_pos (by simp), cstr_append h, ← hdrop]

theorem strtol_noNul {data : List Byte} (h : 0 ∉ data) : 0 ∉ (strtol data).2 := by
  rw [strtol_eq]
  exact fun h0 => h ((leadingNumber_suffix data).mem h0)

section Steps

-- Its equations, once for all the lemmas of this section.
attribute [local simp] parseWalk

variable (fmt data : List Byte) (s : ParseState)

theorem parseWalk_end {c : Byte} (hc0 : c ≠ 0) : parseWalk (c :: fmt) (0 :: data) s = .ok (false, s.p1, s.p2) := by
  rw [parseWalk.eq_def]
  dsimp only
  rw [if_neg hc0, if_pos rfl]

theorem parseWalk_char {c d : Byte} (hc0 : c ≠ 0) (hd0 : d ≠ 0) (hc : c ≠ 37) :
    parseWalk (c :: fmt) (d :: data) s =
      if c = d then parseWalk fmt data s else .ok (false, s.p1, s.p2) := by
  rw [parseWalk.eq_def]
  dsimp only
  rw [if_neg hc0, if_neg hd0, if_pos hc, ite_not]

theorem parseWalk_increment {d : Byte} (hd0 : d ≠ 0) :
    parseWalk (37 :: 105 :: fmt) (d :: data) s = parseWalk fmt (d :: data) { s with iFlag := true } := by
  rw [parseWalk, if_neg (by decide), if_neg hd0, if_neg (by decide)]

/-- A number is stored to the next target, and the walk goes on behind it unless it is zero. -/
theorem parseWalk_scan {d : Byte} {data : List Byte} (hdata : 0 ∉ d :: data) :
    parseWalk (37 :: 100 :: fmt) (d :: data ++ [0]) s =
      let s' := s.store (int32 (strtol (d :: data)).1)
      if s.currentP > 1 then .ok (false, s.p1, s.p2)
      else if int32 (strtol (d :: data)).1 = 0 then .ok (false, s'.p1, s'.p2)
      else parseWalk fmt ((strtol (d :: data)).2 ++ [0]) s' := by
  have hnumber := strtolWalk_eq hdata
  rw [List.cons_append] at hnumber ⊢
  rw [parseWalk, if_neg (by decide), if_neg (List.ne_of_not_mem_cons hdata).symm, if_neg (by decide)]
  by_cases hcurrent : s.currentP > 1
  · simp only [scanNumber, if_pos hcurrent]
  · simp only [scanNumber, if_neg hcurrent, hnumber, Run.ok_bind]
    by_cases hzero : int32 (strtol (d :: data)).1 = 0
    · simp only [if_pos hzero, ParseState.store]
      by_cases hfirst : s.currentP = 0 <;> simp [hfirst]
    · simp only [if_neg hzero, ParseState.store]
      by_cases hfirst : s.currentP = 0 <;> simp [hfirst]

theorem parseWalk_other {c d : Byte} (hd0 : d ≠ 0) (hi : c ≠ 105) (hd : c ≠ 100) :
    parseWalk (37 :: c :: fmt) (d :: data) s = parseWalk fmt (d :: data) s := by
  rw [parseWalk, if_neg (by decide), if_neg hd0, if_neg (by decide)]
  · exact hi
  · exact hd

end Steps

/-- The walk of two strings is the loop on what is left of them. -/
theorem parseWalk_eq {fmt data : List Byte} (hfmt : 0 ∉ fmt) (hdata : 0 ∉ data) (s : ParseState) :
    parseWalk (fmt ++ [0]) (data ++ [0]) s = parseLoop fmt data s := by
  fun_induction formatParts fmt generalizing data s with
  | case1 => cases data <;> rfl
  | case2 c fmt hc ih =>
    have hc0 := (List.ne_of_not_mem_cons hfmt).symm
    cases data with
    | nil => exact parseWalk_end _ _ _ hc0
    | cons d data =>
      rw [List.cons_append, List.cons_append, parseWalk_char _ _ _ hc0 (List.ne_of_not_mem_cons hdata).symm hc,
        parseLoop_char _ _ _ _ hc, ih (List.not_mem_of_not_mem_cons hfmt) (List.not_mem_of_not_mem_cons hdata)]
  | case3 c hc =>
    obtain rfl := not_not.mp hc
    cases data with
    | nil => exact parseWalk_end _ _ _ (by decide)
    | cons d data => exact parseWalk_other [] _ _ (List.ne_of_not_mem_cons hdata).symm (by decide) (by decide)
  | case4 c hc fmt ih =>
    obtain rfl := not_not.mp hc
    simp only [List.mem_cons, not_or] at hfmt
    cases data with
    | nil => exact parseWalk_end _ _ _ (by decide)
    | cons d data =>
      exact (parseWalk_increment _ _ _ (List.ne_of_not_mem_cons hdata).symm).trans (ih hfmt.2.2 hdata _)
  | case5 c hc fmt ih =>
    obtain rfl := not_not.mp hc
    simp only [List.mem_cons, not_or] at hfmt
    cases data with
    | nil => exact parseWalk_end _ _ _ (by decide)
    | cons d data =>
      rw [parseLoop_scan]
      refine (parseWalk_scan (fmt ++ [0]) s hdata).trans ?_
      simp only [ih hfmt.2.2 (strtol_noNul hdata)]
  | case6 c hc c' fmt hi hd ih =>
    obtain rfl := not_not.mp hc
    simp only [List.mem_cons, not_or] at hfmt
    cases data with
    | nil => exact parseWalk_end _ _ _ (by decide)
    | cons d data =>
      rw [parseLoop_other _ _ _ _ hi hd, ← ih hfmt.2.2 hdata]
      exact parseWalk_other _ _ _ (List.ne_of_not_mem_cons hdata).symm hi hd

theorem stringParse2_eq (fmt data : CString) (p1 p2 : Option Int) :
    stringParse2 fmt data p1 p2 = nrlTerminfoStringParse2 fmt.text data.text p1 p2 :=
  parseWalk_eq fmt.plain data.plain _

end Nanorl
