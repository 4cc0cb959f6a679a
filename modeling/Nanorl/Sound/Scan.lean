import Nanorl.Sound.Report

/-!
# Nanorl.Sound.Scan

What `query_cursor` makes of a response.

A format is read as a list of items (`formatItems`), and a response that follows them
reports one number for each `%d` (`reported`). The loop of `nrl_terminfo_string_parse2`
scans one item after the other (`parseLoop_eq`), and the function accepts
nothing else (`parse2_accepts`), but its verdict is not looked at: what it has left in
the two targets is returned whether it accepts the response or not
(`queryCursor_genuine_iff`).
-/

namespace Nanorl

/-! ### Formats and responses -/

inductive FormatItem
  | literal (c : Byte)
  | increment
  | number
  | other
  deriving Repr, DecidableEq

/-- The items of a format that does not end within a directive. -/
def formatItems : List Byte → Option (List FormatItem)
  | [] => some []
  | c :: fmt =>
    if c ≠ 37 then (formatItems fmt).map (.literal c :: ·)
    else
      match fmt with
      | [] => none
      | 105 :: fmt => (formatItems fmt).map (.increment :: ·)
      | 100 :: fmt => (formatItems fmt).map (.number :: ·)
      | _ :: fmt => (formatItems fmt).map (.other :: ·)

/-- Whether there is a minus sign, and the text behind the sign. -/
def leadingSign : List Byte → Bool × List Byte
  | 45 :: rest => (true, rest)
  | 43 :: rest => (false, rest)
  | rest => (false, rest)

/-- The number at the beginning of a text, and the text behind it. -/
def leadingNumber (data : List Byte) : Int × List Byte :=
  let (negative, rest) := leadingSign (data.dropWhile isSpace)
  let ds := rest.takeWhile isDigit
  if ds = [] then (0, data)
  else ((if negative then -1 else 1) * digitsValue ds, rest.drop ds.length)

/-- The numbers a text reports that follows these items, which need not go on to its end. -/
def reported : List FormatItem → List Byte → Option (List Int)
  | [], _ => some []
  | _ :: _, [] => none
  | .literal c :: items, d :: data => if c = d then reported items data else none
  | .number :: items, d :: data =>
    (reported items (leadingNumber (d :: data)).2).map ((leadingNumber (d :: data)).1 :: ·)
  | .increment :: items, d :: data | .other :: items, d :: data => reported items (d :: data)

/-- A number as a `long`. -/
def clampLong (n : Int) : Int := max (min n (2 ^ 63 - 1)) (-2 ^ 63)

/-- What a reported number is counted from. -/
def countedFrom (items : List FormatItem) : Int := if .increment ∈ items then 1 else 0

/-- The value of a target a number has been stored to. -/
def targetOf (items : List FormatItem) (n : Int) : Int := int32 (clampLong n - countedFrom items)

theorem strtol_eq (data : List Byte) :
    strtol data = (clampLong (leadingNumber data).1, (leadingNumber data).2) := by
  have hzero : clampLong 0 = 0 := by decide
  have hneg : ∀ n : Nat, max (-(n : Int)) (-2 ^ 63) = clampLong (-1 * n) := by
    intro n
    unfold clampLong
    omega
  have hpos : ∀ n : Nat, min (n : Int) (2 ^ 63 - 1) = clampLong (1 * n) := by
    intro n
    unfold clampLong
    omega
  have hsign : strtol data =
      let (negative, rest) := leadingSign (data.dropWhile isSpace)
      let ds := rest.takeWhile isDigit
      if ds = [] then (0, data)
      else if negative then (max (-(digitsValue ds : Int)) (-2 ^ 63), rest.drop ds.length)
      else (min (digitsValue ds : Int) (2 ^ 63 - 1), rest.drop ds.length) := rfl
  rw [hsign, leadingNumber]
  generalize leadingSign (data.dropWhile isSpace) = sign
  obtain ⟨negative, rest⟩ := sign
  dsimp only
  split
  · rw [hzero]
  · cases negative with
    | true => exact Prod.ext (hneg _) rfl
    | false => exact Prod.ext (hpos _) rfl

/-! ### The scan -/

/-- The items of a format, and whether it ends in a `%`. The terminator is then taken for a
directive nothing is known of. -/
def formatParts : List Byte → List FormatItem × Bool
  | [] => ([], false)
  | c :: fmt =>
    if c ≠ 37 then (formatParts fmt).map (.literal c :: ·) id
    else
      match fmt with
      | [] => ([.other], true)
      | 105 :: fmt => (formatParts fmt).map (.increment :: ·) id
      | 100 :: fmt => (formatParts fmt).map (.number :: ·) id
      | _ :: fmt => (formatParts fmt).map (.other :: ·) id

theorem formatParts_literal {c : Byte} (hc : c ≠ 37) (fmt : List Byte) :
    formatParts (c :: fmt) = (formatParts fmt).map (.literal c :: ·) id := by
  rw [formatParts.eq_def]
  exact if_pos hc

theorem formatParts_other {c : Byte} (hi : c ≠ 105) (hd : c ≠ 100) (fmt : List Byte) :
    formatParts (37 :: c :: fmt) = (formatParts fmt).map (.other :: ·) id := by
  rw [formatParts, if_neg (by decide)]
  · exact hi
  · exact hd

theorem formatItems_eq (fmt : List Byte) :
    formatItems fmt = if (formatParts fmt).2 then none else some (formatParts fmt).1 := by
  have hmap : ∀ (item : FormatItem) (parts : List FormatItem × Bool),
      (if parts.2 then none else some parts.1 : Option _).map (item :: ·) =
        if (parts.map (item :: ·) id).2 then none else some (parts.map (item :: ·) id).1 := by
    rintro item ⟨items, _ | _⟩ <;> rfl
  fun_induction formatItems fmt with
  | case1 => rfl
  | case2 c fmt hc ih => rw [ih, hmap, formatParts_literal hc]
  | case3 c hc =>
    obtain rfl := not_not.mp hc
    rfl
  | case4 c hc fmt ih =>
    obtain rfl := not_not.mp hc
    rw [ih, hmap]
    rfl
  | case5 c hc fmt ih =>
    obtain rfl := not_not.mp hc
    rw [ih, hmap]
    rfl
  | case6 c hc d fmt hi hd ih =>
    obtain rfl := not_not.mp hc
    rw [ih, hmap, formatParts_other hi hd]

/-- `*target = n` and `current_p++` -/
def ParseState.store (s : ParseState) (n : Int) : ParseState :=
  if s.currentP = 0 then { s with p1 := some n, currentP := 1 }
  else { s with p2 := some n, currentP := s.currentP + 1 }

/-- What is known behind these items, or what a refusal leaves in the targets. -/
def scanItems : List FormatItem → List Byte → ParseState → Except (Option Int × Option Int) ParseState
  | [], _, s => .ok s
  | _ :: _, [], s => .error (s.p1, s.p2)
  | .literal c :: items, d :: data, s =>
    if c = d then scanItems items data s else .error (s.p1, s.p2)
  | .increment :: items, d :: data, s => scanItems items (d :: data) { s with iFlag := true }
  | .number :: items, d :: data, s =>
    let s' := s.store (int32 (strtol (d :: data)).1)
    if s.currentP > 1 then .error (s.p1, s.p2)
    else if int32 (strtol (d :: data)).1 = 0 then .error (s'.p1, s'.p2)
    else scanItems items (strtol (d :: data)).2 s'
  | .other :: items, d :: data, s => scanItems items (d :: data) s

/-- What comes of the format. -/
def parseVerdict (dangling : Bool) :
    Except (Option Int × Option Int) ParseState → Except Fault (Bool × Option Int × Option Int)
  | .error r => .ok (false, r)
  | .ok s => if dangling then .error .outOfBounds else parseEnd s

section Steps

variable (fmt : List Byte) (d : Byte) (data : List Byte) (s : ParseState)

theorem parseLoop_char {c : Byte} (hc : c ≠ 37) :
    parseLoop (c :: fmt) (d :: data) s = if c = d then parseLoop fmt data s else .ok (false, s.p1, s.p2) := by
  rw [parseLoop.eq_def]
  dsimp only
  rw [if_pos hc, ite_not]

/-- A number is stored to the next target, and the scan goes on behind it unless it is zero. -/
theorem parseLoop_scan :
    parseLoop (37 :: 100 :: fmt) (d :: data) s =
      let s' := s.store (int32 (strtol (d :: data)).1)
      if s.currentP > 1 then .ok (false, s.p1, s.p2)
      else if int32 (strtol (d :: data)).1 = 0 then .ok (false, s'.p1, s'.p2)
      else parseLoop fmt (strtol (d :: data)).2 s' := by
  obtain ⟨iFlag, _ | _ | currentP, p1, p2⟩ := s
  · rfl
  · rfl
  · rfl

theorem parseLoop_other {c : Byte} (hi : c ≠ 105) (hd : c ≠ 100) :
    parseLoop (37 :: c :: fmt) (d :: data) s = parseLoop fmt (d :: data) s := by
  rw [parseLoop, if_neg (by decide)]
  · exact hi
  · exact hd

end Steps

/-- The loop scans the items. -/
theorem parseLoop_eq (fmt data : List Byte) (s : ParseState) :
    parseLoop fmt data s = parseVerdict (formatParts fmt).2 (scanItems (formatParts fmt).1 data s) := by
  fun_induction formatParts fmt generalizing data s with
  | case1 => rfl
  | case2 c fmt hc ih =>
    cases data with
    | nil => rfl
    | cons d data =>
      rw [parseLoop_char fmt d data s hc]
      dsimp only [Prod.map, scanItems]
      split
      · exact ih _ _
      · rfl
  | case3 c hc =>
    obtain rfl := not_not.mp hc
    cases data <;> rfl
  | case4 c hc fmt ih =>
    obtain rfl := not_not.mp hc
    cases data with
    | nil => rfl
    | cons d data => exact ih (d :: data) { s with iFlag := true }
  | case5 c hc fmt ih =>
    obtain rfl := not_not.mp hc
    cases data with
    | nil => rfl
    | cons d data =>
      rw [parseLoop_scan]
      dsimp only [Prod.map, scanItems]
      split
      · rfl
      · split
        · rfl
        · exact ih _ _
  | case6 c hc c' fmt hi hd ih =>
    obtain rfl := not_not.mp hc
    cases data with
    | nil => rfl
    | cons d data =>
      rw [parseLoop_other fmt d data s hi hd]
      exact ih _ _

/-- What is known behind items that report these numbers. -/
def ParseState.behind (s : ParseState) (items : List FormatItem) (numbers : List Int) : ParseState :=
  numbers.foldl (fun s n => s.store (int32 (clampLong n)))
    { s with iFlag := s.iFlag || decide (.increment ∈ items) }

section Store

variable (s : ParseState) (n : Int)

theorem ParseState.store_currentP : (s.store n).currentP = s.currentP + 1 := by
  unfold store
  split <;> simp_all

theorem ParseState.store_iFlag : (s.store n).iFlag = s.iFlag := by
  unfold store
  split <;> rfl

theorem ParseState.store_with (iFlag : Bool) :
    ({ s with iFlag } : ParseState).store n = { s.store n with iFlag } := by
  unfold store
  dsimp only
  split <;> rfl

end Store

/-- The scan gets through the items exactly if the data follows them and reports two numbers
at most, none of which is zero as an `int32_t`. -/
theorem scanItems_eq_ok_iff {items : List FormatItem} {data : List Byte} {s s' : ParseState}
    (hs : s.currentP ≤ 2) :
    scanItems items data s = .ok s' ↔
      ∃ numbers, reported items data = some numbers ∧ s.currentP + numbers.length ≤ 2 ∧
        (∀ n ∈ numbers, int32 (clampLong n) ≠ 0) ∧ s' = s.behind items numbers := by
  fun_induction scanItems items data s with
  | case1 data s =>
    simp [reported, ParseState.behind, hs, eq_comm]
  | case2 item items s => simp [reported]
  | case3 items c data s ih =>
    rw [ih hs, reported, if_pos rfl]
    simp [ParseState.behind]
  | case4 items c d data s hc => simp [reported, hc]
  | case5 items d data s ih =>
    rw [ih hs, reported]
    simp [ParseState.behind]
  | case6 items d data s hcurrent =>
    simp only [reported, Option.map_eq_some_iff]
    constructor
    · intro h
      cases h
    · rintro ⟨_, ⟨numbers, -, rfl⟩, hlength, -⟩
      rw [List.length_cons] at hlength
      omega
  | case7 items d data s store hcurrent hzero =>
    rw [strtol_eq] at hzero
    simp only [reported, Option.map_eq_some_iff]
    constructor
    · intro h
      cases h
    · rintro ⟨_, ⟨numbers, -, rfl⟩, -, hne, -⟩
      exact absurd hzero (hne _ List.mem_cons_self)
  | case8 items d data s store hcurrent hne ih =>
    have hstore : store.currentP = s.currentP + 1 := s.store_currentP _
    have hbehind : ∀ numbers, s.behind (.number :: items) ((leadingNumber (d :: data)).1 :: numbers) =
        store.behind items numbers := by
      intro numbers
      have hflag : store.iFlag = s.iFlag := s.store_iFlag _
      have hmem : .increment ∈ FormatItem.number :: items ↔ .increment ∈ items := by simp
      simp only [ParseState.behind, List.foldl_cons, ParseState.store_with, hflag, hmem]
      simp only [store, strtol_eq]
    rw [ih (by omega), strtol_eq]
    rw [strtol_eq] at hne
    simp only [reported, Option.map_eq_some_iff]
    constructor
    · rintro ⟨numbers, hreported, hlength, hnumbers, rfl⟩
      refine ⟨_, ⟨numbers, hreported, rfl⟩, ?_, List.forall_mem_cons.mpr ⟨hne, hnumbers⟩,
        (hbehind numbers).symm⟩
      rw [List.length_cons]
      omega
    · rintro ⟨_, ⟨numbers, hreported, rfl⟩, hlength, hnumbers, rfl⟩
      refine ⟨numbers, hreported, ?_, (List.forall_mem_cons.mp hnumbers).2, hbehind numbers⟩
      rw [List.length_cons] at hlength
      omega
  | case9 items d data s ih =>
    rw [ih hs, reported]
    simp [ParseState.behind]

/-- The loop accepts nothing but data that follows a format and reports two numbers at most,
none of which is zero as an `int32_t`. -/
theorem parseLoop_eq_true_iff {fmt data : List Byte} {s : ParseState} {r : Option Int × Option Int}
    (hs : s.currentP ≤ 2) :
    parseLoop fmt data s = .ok (true, r) ↔
      ∃ items numbers, formatItems fmt = some items ∧ reported items data = some numbers ∧
        s.currentP + numbers.length ≤ 2 ∧ (∀ n ∈ numbers, int32 (clampLong n) ≠ 0) ∧
        parseEnd (s.behind items numbers) = .ok (true, r) := by
  rw [parseLoop_eq, formatItems_eq]
  cases (formatParts fmt).2 with
  | true =>
    cases scanItems (formatParts fmt).1 data s <;> simp [parseVerdict]
  | false =>
    constructor
    · intro h
      cases hscan : scanItems (formatParts fmt).1 data s with
      | error r =>
        rw [hscan] at h
        cases h
      | ok s' =>
        rw [hscan] at h
        obtain ⟨numbers, hreported, hlength, hnumbers, rfl⟩ := (scanItems_eq_ok_iff hs).mp hscan
        exact ⟨_, numbers, rfl, hreported, hlength, hnumbers, h⟩
    · rintro ⟨_, numbers, hitems, hreported, hlength, hnumbers, hend⟩
      obtain rfl := Option.some.inj hitems
      rw [(scanItems_eq_ok_iff hs).mpr ⟨numbers, hreported, hlength, hnumbers, rfl⟩]
      exact hend

/-- The loop runs past the end of a format exactly if a `%` ends it, and the data goes on
behind what follows the rest of it. -/
theorem parseLoop_outOfBounds_iff {fmt data : List Byte} {s : ParseState} (hs : s.currentP ≤ 2) :
    parseLoop fmt data s = .error .outOfBounds ↔
      (formatParts fmt).2 = true ∧ ∃ numbers, reported (formatParts fmt).1 data = some numbers ∧
        s.currentP + numbers.length ≤ 2 ∧ ∀ n ∈ numbers, int32 (clampLong n) ≠ 0 := by
  have hend : ∀ s : ParseState, parseEnd s ≠ .error .outOfBounds := by
    intro s
    unfold parseEnd
    split
    · split <;> simp
    · simp
  rw [parseLoop_eq]
  constructor
  · intro h
    cases hscan : scanItems (formatParts fmt).1 data s with
    | error r =>
      rw [hscan] at h
      cases h
    | ok s' =>
      obtain ⟨numbers, hreported, hlength, hnumbers, -⟩ := (scanItems_eq_ok_iff hs).mp hscan
      refine ⟨?_, numbers, hreported, hlength, hnumbers⟩
      by_contra hdangling
      rw [hscan, parseVerdict, if_neg hdangling] at h
      exact hend _ h
  · rintro ⟨hdangling, numbers, hreported, hlength, hnumbers⟩
    rw [(scanItems_eq_ok_iff hs).mpr ⟨numbers, hreported, hlength, hnumbers, rfl⟩]
    exact if_pos hdangling

/-! ### The targets -/

/-- What `nrl_terminfo_string_parse2` knows behind these numbers. -/
def ParseState.holding (iFlag : Bool) (numbers : List Int) : ParseState where
  iFlag
  currentP := numbers.length
  p1 := numbers[0]?.map fun n => int32 (clampLong n)
  p2 := numbers[1]?.map fun n => int32 (clampLong n)

/-- The rest of a response follows the rest of a format, and reports no more than two
numbers together with those that are stored. -/
def Follows (fmt data : List Byte) (iFlag : Bool) (stored : List Int) (r : Option Int × Option Int) :
    Prop :=
  ∃ items numbers, formatItems fmt = some items ∧ reported items data = some numbers ∧
    (stored ++ numbers).length ≤ 2 ∧
    parseEnd (.holding (iFlag || decide (.increment ∈ items)) (stored ++ numbers)) = .ok (true, r)

theorem ParseState.holding_store (iFlag : Bool) {stored : List Int} (h : stored.length ≤ 1) (n : Int) :
    (holding iFlag stored).store (int32 (clampLong n)) = holding iFlag (stored ++ [n]) := by
  obtain _ | ⟨n₀, _ | ⟨n₁, rest⟩⟩ := stored
  · rfl
  · rfl
  · simp at h

theorem ParseState.holding_behind (iFlag : Bool) {stored numbers : List Int} (items : List FormatItem)
    (h : (stored ++ numbers).length ≤ 2) :
    (holding iFlag stored).behind items numbers =
      holding (iFlag || decide (.increment ∈ items)) (stored ++ numbers) := by
  induction numbers generalizing stored with
  | nil => simp [behind, holding]
  | cons n numbers ih =>
    have hlength : stored.length ≤ 1 := by
      rw [List.length_append, List.length_cons] at h
      omega
    have hcons : stored ++ n :: numbers = stored ++ [n] ++ numbers := by simp
    rw [hcons] at h ⊢
    rw [← ih h, behind, List.foldl_cons, store_with, holding_store iFlag hlength]
    rfl

/-- The loop accepts only what follows the format, with two numbers at most. -/
theorem parseLoop_accepts {fmt data : List Byte} {s : ParseState} {r : Option Int × Option Int}
    (h : parseLoop fmt data s = .ok (true, r)) {iFlag : Bool} {stored : List Int}
    (hs : s = .holding iFlag stored) (hstored : stored.length ≤ 2) : Follows fmt data iFlag stored r := by
  subst hs
  obtain ⟨items, numbers, hitems, hreported, hlength, -, hend⟩ := (parseLoop_eq_true_iff hstored).mp h
  have hboth : (stored ++ numbers).length ≤ 2 := by
    rw [List.length_append]
    exact hlength
  rw [ParseState.holding_behind iFlag items hboth] at hend
  exact ⟨items, numbers, hitems, hreported, hboth, hend⟩

theorem targetOf_eq (items : List FormatItem) (n : Int) :
    targetOf items n = int32 (int32 (clampLong n) - countedFrom items) :=
  Int.bmod_sub_bmod.symm

/-- An accepted response follows the format, and the targets are set to the numbers it
reports, where it reports them. -/
theorem parse2_accepts {format data : List Byte} {r : Option Int × Option Int}
    (h : nrlTerminfoStringParse2 format data none none = .ok (true, r)) :
    ∃ items numbers, formatItems format = some items ∧ reported items data = some numbers ∧
      numbers.length ≤ 2 ∧ r = (numbers[0]?.map (targetOf items), numbers[1]?.map (targetOf items)) := by
  obtain ⟨items, numbers, hitems, hreported, hlength, hend⟩ :=
    parseLoop_accepts h (show _ = ParseState.holding false [] from rfl) (Nat.zero_le _)
  refine ⟨items, numbers, hitems, hreported, hlength, ?_⟩
  have htarget := targetOf_eq items
  rw [Bool.false_or, List.nil_append, parseEnd] at hend
  by_cases hincrement : .increment ∈ items
  · rw [show countedFrom items = 1 from if_pos hincrement] at htarget
    rw [decide_eq_true hincrement, if_pos (show (ParseState.holding true numbers).iFlag = true from rfl)]
      at hend
    obtain _ | ⟨row, _ | ⟨col, rest⟩⟩ := numbers
    · cases hend
    · cases hend
    · obtain rfl := (Prod.mk.inj (Except.ok.inj hend)).2
      simp [htarget]
  · have hcounted : targetOf items = fun n => int32 (clampLong n) := by
      funext n
      rw [targetOf, countedFrom, if_neg hincrement, sub_zero]
    rw [decide_eq_false hincrement, if_neg (by exact Bool.false_ne_true)] at hend
    obtain rfl := (Prod.mk.inj (Except.ok.inj hend)).2
    simp [ParseState.holding, hcounted]

/-- A target holds its number only where that is in range. -/
theorem uint32_targetOf (items : List FormatItem) (n : Int) :
    (uint32 (targetOf items n) : Int) = n - countedFrom items ↔
      0 ≤ n - countedFrom items ∧ n - countedFrom items < 2 ^ 32 := by
  have hcounted : countedFrom items = 0 ∨ countedFrom items = 1 := by
    unfold countedFrom
    split <;> simp
  have huint : (uint32 (targetOf items n) : Int) = (clampLong n - countedFrom items) % 2 ^ 32 := by
    unfold uint32 targetOf int32
    rw [Int.toNat_of_nonneg (Int.emod_nonneg _ (by decide))]
    exact Int.bmod_emod
  rw [huint]
  unfold clampLong
  omega

/-! ### The verdict -/

/-- `nrl_terminfo_string_parse2` accepts the response. -/
def Accepts (format response : List Byte) : Prop :=
  ∃ r, nrlTerminfoStringParse2 format (cstr response) none none = .ok (true, r)

/-- The response reports two numbers, in the places the format has for them. -/
def Reports (format response : List Byte) (items : List FormatItem) (row col : Int) : Prop :=
  formatItems format = some items ∧ reported items (cstr response) = some [row, col]

/-- `query_cursor` succeeds on a genuine report only: it returns true with the two
numbers of a response that is accepted, and any other response changes nothing. -/
structure Genuine (format response : List Byte) (outcome : Except Fault (Option Pos2d × Io)) : Prop where
  accepted : ∀ position io', outcome = .ok (some position, io') → Accepts format response ∧
    ∃ items row col, Reports format response items row col ∧
      (position.row : Int) = row - countedFrom items ∧ (position.col : Int) = col - countedFrom items
  stored : outcome ≠ .error .uninitialised
  refused : ¬ Accepts format response → ∃ io', outcome = .ok (none, io')

/-- A number that can be counted from zero in 32 bits. -/
def Countable (items : List FormatItem) (n : Int) : Prop :=
  0 ≤ n - countedFrom items ∧ n - countedFrom items < 2 ^ 32

/-- The response reports one number only, and the assert on the row ends the run before the
column is looked at. -/
def StopsAtRow (P : Platform) (format response : List Byte) : Prop :=
  P.ndebug = false ∧ ∃ items row, formatItems format = some items ∧
    reported items (cstr response) = some [row] ∧ targetOf items row < 0

/-- The response is accepted; and where there is room for its terminator, it reports two
numbers that fit, unless an assert on the targets fails. -/
def Acceptable (P : Platform) (format response : List Byte) : Prop :=
  Accepts format response ∧ (response.length ≠ cprResBufSize →
    StopsAtRow P format response ∨
    ∃ items row col, Reports format response items row col ∧
      (P.ndebug = true ∨ 0 ≤ targetOf items row ∧ 0 ≤ targetOf items col →
        Countable items row ∧ Countable items col))

theorem Reports.unique {format response : List Byte} {items items' : List FormatItem}
    {row row' col col' : Int} (h : Reports format response items row col)
    (h' : Reports format response items' row' col') : items = items' ∧ row = row' ∧ col = col' := by
  obtain rfl := Option.some.inj (h.1.symm.trans h'.1)
  have hnumbers := Option.some.inj (h.2.symm.trans h'.2)
  simpa using hnumbers

/-- Two numbers that are reported are stored. -/
theorem Accepts.stores {format response : List Byte} {items : List FormatItem} {row col : Int}
    (h : Accepts format response) (hreports : Reports format response items row col) :
    nrlTerminfoStringParse2 format (cstr response) none none =
      .ok (true, some (targetOf items row), some (targetOf items col)) := by
  obtain ⟨r, hparsed⟩ := h
  obtain ⟨items', numbers, hitems, hreported, -, rfl⟩ := parse2_accepts hparsed
  obtain rfl := Option.some.inj (hreports.1.symm.trans hitems)
  obtain rfl := Option.some.inj (hreports.2.symm.trans hreported)
  exact hparsed

/-- A query that succeeds on nothing but a genuine report has received an acceptable one. -/
theorem Genuine.acceptable {P : Platform} {format response : List Byte} {io : Io}
    (h : Genuine format response
      ((positionOf P format response).map fun position => (some position, io))) :
    Acceptable P format response := by
  have haccepts : Accepts format response := by
    by_contra hrefused
    obtain ⟨_, hnone⟩ := h.refused hrefused
    obtain ⟨_, -, hnone⟩ := Run.map_eq_ok.mp hnone
    cases hnone
  refine ⟨haccepts, fun hsize => ?_⟩
  obtain ⟨r, hparsed⟩ := haccepts
  obtain ⟨items, numbers, hitems, hreported, hlength, rfl⟩ := parse2_accepts hparsed
  -- no target is used that has not been set
  have hset : ∀ rowTarget colTarget,
      nrlTerminfoStringParse2 format (cstr response) none none = .ok (true, rowTarget, colTarget) →
      ¬(rowTarget = none ∨
        ∃ rowBuf, rowTarget = some rowBuf ∧ colTarget = none ∧ (P.ndebug = true ∨ 0 ≤ rowBuf)) := by
    intro rowTarget colTarget hr hunset
    refine h.stored ?_
    rw [positionOf_uninitialised.mpr ⟨hsize, .inr ⟨true, rowTarget, colTarget, hr, hunset⟩⟩]
    rfl
  obtain _ | ⟨row, _ | ⟨col, _ | ⟨n, rest⟩⟩⟩ := numbers
  · exact absurd (.inl rfl) (hset _ _ hparsed)
  · have hstops : ¬(P.ndebug = true ∨ 0 ≤ targetOf items row) := fun hrow =>
      hset _ _ hparsed (.inr ⟨_, rfl, rfl, hrow⟩)
    rw [not_or, Bool.not_eq_true, Int.not_le] at hstops
    exact .inl ⟨hstops.1, items, row, hitems, hreported, hstops.2⟩
  · refine .inr ⟨items, row, col, ⟨hitems, hreported⟩, fun hsigns => ?_⟩
    rw [positionOf_ok.mpr ⟨hsize, _, _, _, hparsed, hsigns, rfl⟩] at h
    obtain ⟨-, items', row', col', hreports, hrow, hcol⟩ := h.accepted _ _ rfl
    obtain ⟨rfl, rfl, rfl⟩ := hreports.unique ⟨hitems, hreported⟩
    exact ⟨(uint32_targetOf _ _).mp hrow, (uint32_targetOf _ _).mp hcol⟩
  · simp at hlength

/-- A response with one number that is negative makes an assert fail. -/
theorem StopsAtRow.positionOf {P : Platform} {format response : List Byte} (h : StopsAtRow P format response)
    (haccepts : Accepts format response) : (∀ position, Nanorl.positionOf P format response ≠ .ok position) ∧
      Nanorl.positionOf P format response ≠ .error .uninitialised := by
  obtain ⟨hasserts, items, row, hitems, hreported, hneg⟩ := h
  obtain ⟨r, hparsed⟩ := haccepts
  obtain ⟨items', numbers, hitems', hreported', -, rfl⟩ := parse2_accepts hparsed
  obtain rfl := Option.some.inj (hitems.symm.trans hitems')
  obtain rfl := Option.some.inj (hreported.symm.trans hreported')
  have hrow : ¬(P.ndebug = true ∨ 0 ≤ targetOf items row) := by simp [hasserts, hneg]
  constructor
  · intro position hposition
    obtain ⟨-, _, rowBuf, colBuf, hok, -⟩ := positionOf_ok.mp hposition
    rw [hparsed] at hok
    cases hok
  · intro hunset
    obtain ⟨-, herror | ⟨_, _, _, hok, hunset⟩⟩ := positionOf_uninitialised.mp hunset
    · rw [hparsed] at herror
      cases herror
    · rw [hparsed] at hok
      cases hok
      rcases hunset with hnone | ⟨rowBuf, hrowBuf, -, hsign⟩
      · cases hnone
      · obtain rfl := Option.some.inj hrowBuf
        exact hrow hsign

/-- An acceptable response is turned into the position it reports. -/
theorem Acceptable.genuine {P : Platform} {format response : List Byte} (h : Acceptable P format response)
    (io : Io) : Genuine format response
      ((positionOf P format response).map fun position => (some position, io)) := by
  obtain ⟨haccepts, hnumbers⟩ := h
  refine ⟨fun position io' houtcome => ⟨haccepts, ?_⟩, fun hunset => ?_,
    fun hrefused => absurd haccepts hrefused⟩
  · obtain ⟨position', hposition, houtcome⟩ := Run.map_eq_ok.mp houtcome
    obtain ⟨hsize, res, rowBuf, colBuf, hparsed, hsigns, rfl⟩ := positionOf_ok.mp hposition
    rcases hnumbers hsize with hstops | ⟨items, row, col, hreports, hcountable⟩
    · exact absurd hposition ((hstops.positionOf haccepts).1 _)
    rw [haccepts.stores hreports] at hparsed
    cases hparsed
    obtain rfl := Option.some.inj (Prod.mk.inj houtcome).1
    obtain ⟨hrow, hcol⟩ := hcountable hsigns
    exact ⟨items, row, col, hreports, (uint32_targetOf _ _).mpr hrow, (uint32_targetOf _ _).mpr hcol⟩
  · have hunset := Run.map_eq_error.mp hunset
    obtain ⟨hsize, hunset'⟩ := positionOf_uninitialised.mp hunset
    rcases hnumbers hsize with hstops | ⟨items, row, col, hreports, -⟩
    · exact (hstops.positionOf haccepts).2 hunset
    rw [haccepts.stores hreports] at hunset'
    rcases hunset' with herror | ⟨_, _, _, hok, hnone⟩
    · cases herror
    · cases hok
      simp at hnone

/-- **Genuine reports.** `query_cursor` succeeds on nothing but a genuine report exactly
if the response it has received is acceptable. -/
theorem queryCursor_genuine_iff {P : Platform} {t : Terminfo} {io io' io'' : Io}
    {format response : List Byte} {lastChar : Byte} (hsends : SendsRequest P t io io')
    (huser6 : nrlLookupSpecial t TerminfoSpecial.user6.id = some format)
    (hlast : format.getLast? = some lastChar)
    (hreceived : readResponse P lastChar (io'.world.pendingReads + 2) [] io' = .ok (some response, io'')) :
    Genuine format response (queryCursor P t io) ↔ Acceptable P format response := by
  rw [hsends.queryCursor_eq, receiveReport_eq huser6 hlast, hreceived, Run.ok_bind]
  exact ⟨Genuine.acceptable, fun h => h.genuine io''⟩

/-- The cursor is in the third row and the fifth column. -/
theorem queryCursor_genuine_third : Genuine (ascii "\x1b[%i%d;%dR") (ascii "\x1b[3;5R")
    (queryCursor referencePlatform xtermTerminfo (repliesScreen [.data (ascii "\x1b[3;5R")]).io) := by
  obtain ⟨io', hsends, hfile, hreads⟩ := repliesScreen_sends [.data (ascii "\x1b[3;5R")]
  refine (queryCursor_genuine_iff hsends xterm_user6 (show _ = some 82 by decide)
    (readResponse_whole hfile hreads (by decide) (by decide) _)).mpr ⟨⟨(some 2, some 4), ?_⟩, fun _ => .inr ?_⟩
  · decide +kernel
  · refine ⟨[.literal 27, .literal 91, .increment, .number, .literal 59, .number, .literal 82], 3, 5,
      ⟨?_, ?_⟩, fun _ => ?_⟩
    · decide +kernel
    · decide +kernel
    · unfold Countable countedFrom
      decide +kernel

/-- The fifth row has no column zero, but the position is stored. -/
theorem queryCursor_genuine_zero : ¬ Genuine (ascii "\x1b[%i%d;%dR") (ascii "\x1b[5;0R")
    (queryCursor referencePlatform xtermTerminfo (repliesScreen [.data (ascii "\x1b[5;0R")]).io) := by
  obtain ⟨io', hsends, hfile, hreads⟩ := repliesScreen_sends [.data (ascii "\x1b[5;0R")]
  have hparsed : nrlTerminfoStringParse2 (ascii "\x1b[%i%d;%dR") (cstr (ascii "\x1b[5;0R")) none none =
      .ok (false, some 5, some 0) := by
    decide +kernel
  intro hgenuine
  have hrefused : ¬ Accepts (ascii "\x1b[%i%d;%dR") (ascii "\x1b[5;0R") := by
    rintro ⟨r, haccepts⟩
    rw [hparsed] at haccepts
    cases haccepts
  obtain ⟨io'', hnone⟩ := hgenuine.refused hrefused
  rw [hsends.queryCursor_eq, receiveReport_eq xterm_user6 (show _ = some 82 by decide),
    readResponse_whole hfile hreads (by decide) (by decide), Run.ok_bind] at hnone
  obtain ⟨_, -, hsome⟩ := Run.map_eq_ok.mp hnone
  cases hsome

end Nanorl
