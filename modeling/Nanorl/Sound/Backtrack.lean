import Mathlib.Data.List.TakeWhile
import Nanorl.Sound.Answers

/-!
# Nanorl.Sound.Backtrack

Where a cursor ends up that an UTF-8 handler returns.

The bytes before it are decoded on their own. If they end inside a character, the two
decodings are compared from the end of the shorter one backwards, and the cursor is put
behind the last place where they agree (`adjustCursor_iff`). Both arrays end in a
terminator, so these may agree as well, and the replacement characters of the cut one
do not agree with the character they stand for (`splitCharacter_iff`).

A cursor that ends up within its line keeps every later access to the line within it
(`answers_inRange_iff`).
-/

namespace Nanorl

/-! ### Backtracking -/

section Backtracking

variable {line before : List Uchar}

theorem entryAt_ok {k : Nat} {c : Uchar} : entryAt line k = .ok c ↔ (line ++ [0])[k]? = some c := by
  unfold entryAt
  cases (line ++ [0])[k]? <;> simp

theorem entryAt_of_le {k : Nat} (h : k ≤ line.length) :
    ∃ c, entryAt line k = .ok c ∧ (line ++ [0])[k]? = some c := by
  have hlt : k < (line ++ [0]).length := by
    rw [List.length_append]
    exact Nat.lt_succ_of_le h
  have hentry := List.getElem?_eq_getElem hlt
  exact ⟨_, entryAt_ok.mpr hentry, hentry⟩

/-- One round compares the entries at `k`. -/
theorem compare_eq {α : Type} {k : Nat} (hline : k ≤ line.length) (hbefore : k ≤ before.length)
    (stop back : Except Fault α) :
    (do
      let c ← entryAt line k
      let d ← entryAt before k
      if c ≠ d then back else stop) =
      if (line ++ [0])[k]? = (before ++ [0])[k]? then stop else back := by
  obtain ⟨c, hc, hentry⟩ := entryAt_of_le hline
  obtain ⟨d, hd, hentry'⟩ := entryAt_of_le hbefore
  rw [hc, Run.ok_bind, hd, Run.ok_bind, hentry, hentry']
  by_cases heq : c = d
  · rw [if_pos (congrArg some heq), if_neg (fun h => h heq)]
  · rw [if_neg (fun h => heq (Option.some.inj h)), if_pos heq]

/-- The loop stops at the last index at which the two arrays agree, within both. -/
theorem adjustCursor_iff {adjust k : Nat} (hline : adjust ≤ line.length) (hbefore : adjust ≤ before.length) :
    adjustCursor line before adjust = .ok k ↔ k ≤ adjust ∧
      (line ++ [0])[k]? = (before ++ [0])[k]? ∧
      ∀ j, k < j → j ≤ adjust → (line ++ [0])[j]? ≠ (before ++ [0])[j]? := by
  induction adjust with
  | zero =>
    rw [adjustCursor, compare_eq hline hbefore]
    split
    · rename_i heq
      constructor
      · intro h
        obtain rfl := Except.ok.inj h
        exact ⟨Nat.le_refl _, heq, fun j hlt hle => by omega⟩
      · rintro ⟨hle, -, -⟩
        rw [Nat.le_zero.mp hle]
        rfl
    · rename_i hne
      constructor
      · intro h
        cases h
      · rintro ⟨hle, heq, -⟩
        rw [Nat.le_zero.mp hle] at heq
        exact absurd heq hne
  | succ adjust ih =>
    rw [adjustCursor, compare_eq hline hbefore]
    split
    · rename_i heq
      constructor
      · intro h
        obtain rfl := Except.ok.inj h
        exact ⟨Nat.le_refl _, heq, fun j hlt hle => by omega⟩
      · rintro ⟨hle, -, hlast⟩
        rcases Nat.lt_or_eq_of_le hle with hlt | rfl
        · exact absurd heq (hlast _ hlt (Nat.le_refl _))
        · rfl
    · rename_i hne
      rw [ih (Nat.le_of_succ_le hline) (Nat.le_of_succ_le hbefore)]
      constructor
      · rintro ⟨hle, heq, hlast⟩
        refine ⟨Nat.le_succ_of_le hle, heq, fun j hlt hj => ?_⟩
        rcases Nat.lt_or_eq_of_le hj with hj | rfl
        · exact hlast j hlt (Nat.le_of_lt_succ hj)
        · exact hne
      · rintro ⟨hle, heq, hlast⟩
        refine ⟨?_, heq, fun j hlt hj => hlast j hlt (Nat.le_succ_of_le hj)⟩
        rcases Nat.lt_or_eq_of_le hle with hlt | rfl
        · exact Nat.le_of_lt_succ hlt
        · exact absurd heq hne

/-- Beyond the end of the line there is nothing to compare. -/
theorem adjustCursor_beyond {adjust : Nat} (h : line.length < adjust) :
    adjustCursor line before adjust = .error .outOfBounds := by
  obtain ⟨adjust, rfl⟩ : ∃ j, adjust = j + 1 := ⟨adjust - 1, by omega⟩
  have hnone : entryAt line (adjust + 1) = .error .outOfBounds := by
    rw [entryAt, List.getElem?_eq_none (by rw [List.length_append]; exact h)]
  rw [adjustCursor, hnone]
  rfl

/-- What precedes the cursor never agrees with the line at its terminator, unless the
line ends there. -/
theorem terminator_ne (hnul : 0 ∉ line) (h : before.length < line.length) :
    (line ++ [0])[before.length]? ≠ (before ++ [0])[before.length]? := by
  rw [List.getElem?_append_left h, List.getElem?_concat_length]
  intro hzero
  exact hnul (List.mem_of_getElem? hzero)

/-- Some index is found exactly if the arrays agree at one of those looked at. -/
theorem adjustCursor_stops {adjust : Nat} (hline : adjust ≤ line.length)
    (hbefore : adjust ≤ before.length) :
    (∃ k, adjustCursor line before adjust = .ok k) ↔
      ∃ j ≤ adjust, (line ++ [0])[j]? = (before ++ [0])[j]? := by
  constructor
  · rintro ⟨k, hk⟩
    obtain ⟨hle, heq, -⟩ := (adjustCursor_iff hline hbefore).mp hk
    exact ⟨k, hle, heq⟩
  · rintro ⟨j, hle, heq⟩
    induction adjust with
    | zero =>
      obtain rfl := Nat.le_zero.mp hle
      rw [adjustCursor, compare_eq hline hbefore, if_pos heq]
      exact ⟨0, rfl⟩
    | succ adjust ih =>
      rw [adjustCursor, compare_eq hline hbefore]
      split
      · exact ⟨_, rfl⟩
      · rename_i hne
        refine ih (Nat.le_of_succ_le hline) (Nat.le_of_succ_le hbefore) ?_
        rcases Nat.lt_or_eq_of_le hle with hlt | rfl
        · exact Nat.le_of_lt_succ hlt
        · exact absurd heq hne

/-- The index found is within the line exactly if the shorter array agrees with the
line somewhere. -/
theorem adjustCursor_within_iff (hnul : 0 ∉ line) :
    (∃ k, adjustCursor line before before.length = .ok k ∧ k < line.length) ↔
      before.length < line.length ∧ ∃ j < before.length, before[j]? = (line)[j]? := by
  have hagree : ∀ {j}, j < before.length → before.length < line.length →
      ((line ++ [0])[j]? = (before ++ [0])[j]? ↔ before[j]? = (line)[j]?) := by
    intro j hj hlt
    rw [List.getElem?_append_left (Nat.lt_trans hj hlt), List.getElem?_append_left hj]
    exact eq_comm
  constructor
  · rintro ⟨k, hk, hle⟩
    rcases Nat.lt_trichotomy before.length line.length with hlt | heq | hgt
    · obtain ⟨hkb, hkeq, -⟩ := (adjustCursor_iff (Nat.le_of_lt hlt) (Nat.le_refl _)).mp hk
      have hne : k ≠ before.length := fun h => terminator_ne hnul hlt (h ▸ hkeq)
      have hkb : k < before.length := by omega
      exact ⟨hlt, k, hkb, (hagree hkb hlt).mp hkeq⟩
    · -- the two terminators agree, and stop the loop behind the line
      obtain ⟨hkb, -, hlast⟩ := (adjustCursor_iff (Nat.le_of_eq heq) (Nat.le_refl _)).mp hk
      refine absurd ?_ (hlast before.length (by omega) (Nat.le_refl _))
      rw [List.getElem?_concat_length, heq, List.getElem?_concat_length]
    · rw [adjustCursor_beyond hgt] at hk
      cases hk
  · rintro ⟨hlt, j, hj, heq⟩
    obtain ⟨k, hk⟩ := (adjustCursor_stops (Nat.le_of_lt hlt) (Nat.le_refl _)).mpr
      ⟨j, Nat.le_of_lt hj, (hagree hj hlt).mpr heq⟩
    exact ⟨k, hk, Nat.lt_of_le_of_lt (adjustCursor_le hk) hlt⟩

end Backtracking

section Import

variable {P : Platform} {line : List Byte} {cursor : Nat}

theorem zero_notMem_cstr {α : Type} [BEq α] [LawfulBEq α] [OfNat α 0] (l : List α) : 0 ∉ cstr l := by
  intro hmem
  have hzero := List.mem_takeWhile_imp hmem
  simp at hzero

/-- A line whose beginning is malformed is backtracked. -/
theorem importUtf8_malformed (hcursor : cursor ≤ (cstr line).length) {before : List Uchar}
    (hbefore : P.utf8Decode ((cstr line).take cursor) = (before, true)) :
    importUtf8 P line cursor = (adjustCursor (P.utf8Decode (cstr line)).1 before before.length).map
      fun adjust => ((P.utf8Decode (cstr line)).1, adjust + 1) := by
  simp only [importUtf8, hbefore, if_neg (Nat.not_lt.mpr hcursor), if_true]
  cases adjustCursor (P.utf8Decode (cstr line)).1 before before.length <;> rfl

theorem importUtf8_wellFormed (hcursor : cursor ≤ (cstr line).length) {before : List Uchar}
    (hbefore : P.utf8Decode ((cstr line).take cursor) = (before, false)) :
    importUtf8 P line cursor = .ok ((P.utf8Decode (cstr line)).1, before.length) := by
  simp only [importUtf8, hbefore, if_neg (Nat.not_lt.mpr hcursor), Bool.false_eq_true, if_false]
  rfl

end Import

/-- `utf8_decode` of a text and the first bytes of one more character: the text, some
U+FFFD for these, and the error flag. -/
def Platform.TruncationLaw (P : Platform) : Prop :=
  ∀ (text : List Char) (c : Char) (j : Nat), 0 < j → j < c.utf8Size →
    ∃ m, P.utf8Decode (encoded text ++ (String.utf8EncodeChar c).take j) =
      (text.map Char.val ++ List.replicate m unicodeErrorChar, true)

theorem referencePlatform_truncation : referencePlatform.TruncationLaw := by
  intro text c j hj hlt
  have htext : Utf8.decode (encoded text) = _ := Utf8.decode_encode text
  refine ⟨j, ?_⟩
  show Utf8.decode _ = _
  rw [Utf8.decode_append (by rw [htext]), htext, Utf8.decode_cut c hj hlt]
  rfl

section Cut

variable {text : List Char} {k m : Nat}

theorem encoded_at {c : Char} (hc : text[k]? = some c) :
    encoded text =
      encoded (text.take k) ++ (String.utf8EncodeChar c ++ encoded (text.drop (k + 1))) := by
  obtain ⟨hk, hget⟩ := List.getElem?_eq_some_iff.mp hc
  rw [encoded_split text k, List.drop_eq_getElem_cons hk, hget]
  rfl

/-- The bytes before a cursor inside a character. -/
theorem take_inside {c : Char} (hc : text[k]? = some c) {j : Nat} (hlt : j < c.utf8Size) :
    (encoded text).take (byteCursor text k + j) =
      encoded (text.take k) ++ (String.utf8EncodeChar c).take j := by
  have hlength := String.length_utf8EncodeChar c
  rw [encoded_at hc, byteCursor, List.take_length_add_append, List.take_append_of_le_length (by omega)]

theorem byteCursor_inside {c : Char} (hc : text[k]? = some c) {j : Nat} (hlt : j < c.utf8Size) :
    byteCursor text k + j ≤ (encoded text).length := by
  have hlength := String.length_utf8EncodeChar c
  rw [encoded_at hc, List.length_append, List.length_append, byteCursor]
  omega

/-- The `m` replacement characters for a cut character end the loop at that character:
it is U+FFFD itself, the last one they are compared with, and the line goes on behind
them. -/
def StopsAtCut (text : List Char) (k m : Nat) : Prop :=
  0 < m ∧ k + m < text.length ∧ (text[k]?).map Char.val = some unicodeErrorChar ∧
    ∀ i, k < i → i < k + m → (text[i]?).map Char.val ≠ some unicodeErrorChar

theorem adjustCursor_cut_iff (hnul : Char.ofNat 0 ∉ text) (hk : k < text.length) :
    adjustCursor (text.map Char.val)
        ((text.take k).map Char.val ++ List.replicate m unicodeErrorChar) (k + m) = .ok k ↔
      StopsAtCut text k m := by
  have htake : ((text.take k).map Char.val).length = k := by
    rw [List.length_map, List.length_take_of_le (Nat.le_of_lt hk)]
  have hbefore : ((text.take k).map Char.val ++ List.replicate m unicodeErrorChar).length = k + m := by
    rw [List.length_append, htake, List.length_replicate]
  -- what the two arrays hold behind the cut
  have hcut : ∀ i, k ≤ i → i < k + m →
      ((text.take k).map Char.val ++ List.replicate m unicodeErrorChar ++ [0])[i]? =
        some unicodeErrorChar := by
    intro i hle hlt
    rw [List.getElem?_append_left (by omega), List.getElem?_append_right (by omega), htake,
      List.getElem?_replicate_of_lt (by omega)]
  have hlast : ((text.take k).map Char.val ++ List.replicate m unicodeErrorChar ++ [0])[k + m]? =
      some 0 := by
    rw [← hbefore, List.getElem?_concat_length]
  have hline : ∀ i < text.length, (text.map Char.val ++ [0])[i]? = (text[i]?).map Char.val := by
    intro i hi
    rw [List.getElem?_append_left (by rw [List.length_map]; exact hi), List.getElem?_map]
  have hzero : ∀ i : Nat, (text[i]?).map Char.val ≠ some 0 := by
    intro i hi
    rw [← List.getElem?_map] at hi
    exact zero_notMem_vals hnul (List.mem_of_getElem? hi)
  rcases Nat.lt_or_ge text.length (k + m) with hlong | hshort
  · rw [adjustCursor_beyond (by rw [List.length_map]; exact hlong)]
    exact ⟨fun h => (by cases h), fun h => absurd h.2.1 (by omega)⟩
  · rw [adjustCursor_iff (by rw [List.length_map]; exact hshort) (by rw [hbefore]), hline k hk]
    constructor
    · rintro ⟨-, heq, hne⟩
      have hm : 0 < m := by
        rcases Nat.eq_zero_or_pos m with rfl | hm
        · rw [Nat.add_zero] at hlast
          exact absurd (heq.trans hlast) (hzero k)
        · exact hm
      have hlt : k + m < text.length := by
        rcases Nat.lt_or_eq_of_le hshort with hlt | heq'
        · exact hlt
        · have hend : (text.map Char.val ++ [0])[k + m]? = some 0 := by
            rw [heq', ← List.length_map Char.val, List.getElem?_concat_length]
          exact absurd (hend.trans hlast.symm) (hne _ (by omega) (Nat.le_refl _))
      refine ⟨hm, hlt, heq.trans (hcut k (Nat.le_refl _) (by omega)), fun i hki hi heq' => ?_⟩
      refine hne i hki (Nat.le_of_lt hi) ?_
      rw [hline i (by omega), heq', hcut i (Nat.le_of_lt hki) hi]
    · rintro ⟨hm, hlt, heq, hne⟩
      refine ⟨Nat.le_add_right _ _, heq.trans (hcut k (Nat.le_refl _) (by omega)).symm, ?_⟩
      intro j hkj hj heq'
      rcases Nat.lt_or_eq_of_le hj with hj | rfl
      · rw [hline j (by omega), hcut j (Nat.le_of_lt hkj) hj] at heq'
        exact hne j hkj hj heq'
      · rw [hline _ hlt, hlast] at heq'
        exact hzero _ heq'

end Cut

/-- What an UTF-8 handler answers on a line. -/
def utf8Answer (P : Platform) (func : List Byte → Nat → Int → List Byte × Nat) (id : Int)
    (line : LineData) : List Byte × Nat :=
  func (P.utf8Encode (cstr line.buffer)) (P.utf8Encode (cstr (line.buffer.take line.cursor))).length id

/-- What a cursor inside a character of the answer is turned into. -/
theorem callHandler_inside {P : Platform} (htext : P.TextLaw)
    {func : List Byte → Nat → Int → List Byte × Nat} {id : Int} {line : LineData}
    (hcursor : line.cursor ≤ line.buffer.length) {text : List Char} {k j m : Nat} {c : Char}
    (hc : text[k]? = some c) (hlt : j < c.utf8Size)
    (hline : cstr (utf8Answer P func id line).1 = encoded text)
    (hcut : (utf8Answer P func id line).2 = byteCursor text k + j)
    (hbefore : P.utf8Decode ((encoded text).take (byteCursor text k + j)) =
      ((text.take k).map Char.val ++ List.replicate m unicodeErrorChar, true)) :
    callHandler P { id, func := .utf8 func } line.buffer line.cursor =
      (adjustCursor (text.map Char.val)
        ((text.take k).map Char.val ++ List.replicate m unicodeErrorChar) (k + m)).map
        fun adjust => (text.map Char.val, adjust + 1) := by
  have hk := (List.getElem?_eq_some_iff.mp hc).1
  have hdecode : P.utf8Decode (encoded text) = _ := htext text
  have hlength : ((text.take k).map Char.val ++ List.replicate m unicodeErrorChar).length = k + m := by
    rw [List.length_append, List.length_map, List.length_take_of_le (Nat.le_of_lt hk),
      List.length_replicate]
  have hdecoded : P.utf8Decode ((cstr (utf8Answer P func id line).1).take
      (utf8Answer P func id line).2) =
      ((text.take k).map Char.val ++ List.replicate m unicodeErrorChar, true) := by
    rw [hline, hcut, hbefore]
  rw [callHandler]
  dsimp only
  rw [if_neg (Nat.not_lt.mpr hcursor)]
  refine (importUtf8_malformed ?_ hdecoded).trans ?_
  · rw [hline, hcut]
    exact byteCursor_inside hc hlt
  · rw [hline, hdecode, hlength]

/-- **A cursor inside a character.** For a line of valid UTF-8 and a cursor inside its
character `k`, the editor's cursor ends up behind that character exactly if the
character is U+FFFD and the replacement characters for its beginning end the
backtracking at it. -/
theorem splitCharacter_iff {P : Platform} (htext : P.TextLaw) (htrunc : P.TruncationLaw) {t : Terminfo}
    {table : EscapeTable} {escape : Nat} {id : Int} {func : List Byte → Nat → Int → List Byte × Nat}
    (htable : table escape = some { id, func := .utf8 func }) {e e₁ : Editor}
    (hsync : nrlRenderSyncCursors P t { e with line := { e.line with cursor := 0 } } = .ok e₁)
    (hcursor : e.line.cursor ≤ e.line.buffer.length) {text : List Char} (hnul : Char.ofNat 0 ∉ text)
    {k j : Nat} {c : Char} (hc : text[k]? = some c) (hj : 0 < j) (hlt : j < c.utf8Size)
    (hline : cstr (utf8Answer P func id e.line).1 = encoded text)
    (hcut : (utf8Answer P func id e.line).2 = byteCursor text k + j) :
    (∃ e', nrlManipEvalCustom P t table escape e = .ok (true, e') ∧ e'.line.cursor = k + 1 ∧
        e'.line.cursor ≤ e'.line.buffer.length) ↔
      ∃ m, (P.utf8Decode ((encoded text).take (byteCursor text k + j))).1.length = k + m ∧
        StopsAtCut text k m := by
  have hk := (List.getElem?_eq_some_iff.mp hc).1
  obtain ⟨m, hbefore⟩ := htrunc (text.take k) c j hj hlt
  rw [← take_inside hc hlt] at hbefore
  rw [nrlManipEvalCustom_called htable hsync,
    callHandler_inside htext hcursor hc hlt hline hcut hbefore, hbefore, List.length_append,
    List.length_map, List.length_take_of_le (Nat.le_of_lt hk), List.length_replicate]
  constructor
  · rintro ⟨e', heval, hk', -⟩
    cases hadjust : adjustCursor (text.map Char.val)
        ((text.take k).map Char.val ++ List.replicate m unicodeErrorChar) (k + m) with
    | error fault =>
      rw [hadjust] at heval
      cases heval
    | ok adjust =>
      rw [hadjust] at heval
      obtain rfl := (Prod.mk.inj (Except.ok.inj heval)).2
      obtain rfl : adjust = k := Nat.succ.inj hk'
      exact ⟨m, rfl, (adjustCursor_cut_iff hnul hk).mp hadjust⟩
  · rintro ⟨m', hm, hstops⟩
    obtain rfl : m = m' := Nat.add_left_cancel hm
    rw [(adjustCursor_cut_iff hnul hk).mpr hstops]
    refine ⟨_, rfl, rfl, ?_⟩
    show k + 1 ≤ (text.map Char.val).length
    rw [List.length_map]
    exact hk

/-- A handler that answers with a fixed line and cursor. -/
def answerTable (line : List Byte) (cursor : Nat) : EscapeTable :=
  fun _ => some { id := 0, func := .utf8 fun _ _ _ => (line, cursor) }

/-- The cursors of this editor can be moved to the beginning. -/
theorem accentEditor_syncs : ∃ e₁, nrlRenderSyncCursors referencePlatform xtermTerminfo
    { accentEditor with line := { accentEditor.line with cursor := 0 } } = .ok e₁ :=
  Run.isOk_iff.mp (by decide +kernel)

/-- A cursor inside a U+FFFD that is followed by another character. -/
theorem splitCharacter_iff_replacement :
    ∃ e', nrlManipEvalCustom referencePlatform xtermTerminfo (answerTable [0xef, 0xbf, 0xbd, 97] 1) 0
        accentEditor = .ok (true, e') ∧ e'.line.cursor = 0 + 1 ∧
      e'.line.cursor ≤ e'.line.buffer.length := by
  obtain ⟨e₁, hsync⟩ := accentEditor_syncs
  have hchar : ['\ufffd', 'a'][0]? = some '\ufffd' := rfl
  exact (splitCharacter_iff referencePlatform_text referencePlatform_truncation rfl hsync
    (by decide) (by decide) hchar Nat.one_pos (by decide) (by decide) rfl).mpr
    ⟨1, by decide +kernel, by decide, by decide, by decide, fun i hi hlt => by omega⟩

/-- The only character of a line, one in the middle of a line, and the first one of a
longer line: the cursor ends up behind the line, before the character, or nowhere. -/
theorem splitCharacter_astray :
    (nrlManipEvalCustom referencePlatform xtermTerminfo (answerTable [0xc3, 0xa9] 1) 0
        accentEditor).map (fun r => (r.2.line.buffer, r.2.line.cursor)) = .ok ([0xe9], 2) ∧
      (nrlManipEvalCustom referencePlatform xtermTerminfo (answerTable [97, 0xc3, 0xa9, 98] 2) 0
        accentEditor).map (fun r => (r.2.line.buffer, r.2.line.cursor)) = .ok ([97, 0xe9, 98], 1) ∧
      (nrlManipEvalCustom referencePlatform xtermTerminfo (answerTable [0xc3, 0xa9, 97] 1) 0
        accentEditor).map (fun r => r.2.line.cursor) = .error .outOfBounds := by
  decide +kernel

/-! ### Any answer -/

/-- `utf8_decode` makes no terminator of other bytes. -/
def Platform.DecodeNulLaw (P : Platform) : Prop :=
  ∀ bytes : List Byte, 0 ∉ bytes → 0 ∉ (P.utf8Decode bytes).1

theorem referencePlatform_decodeNul : referencePlatform.DecodeNulLaw :=
  fun _ h => Utf8.zero_notMem_decode h

namespace EscapeHandler

variable (P : Platform) (handler : EscapeHandler) (line : LineData)

/-- Where the bytes before the cursor the handler returns are malformed, they still
decode to a character of the line in its place. -/
def Shares : Prop :=
  match handler.func with
  | .utf32 _ => True
  | .utf8 func =>
    let (text, cursor) := utf8Answer P func handler.id line
    let (ucBeforeCursor, errorFlag) := P.utf8Decode ((cstr text).take cursor)
    errorFlag = true → ∃ j < ucBeforeCursor.length,
      ucBeforeCursor[j]? = (P.utf8Decode (cstr text)).1[j]?

end EscapeHandler

section Any

variable {P : Platform}

theorem importUtf8_within_iff (hdecode : P.DecodeLaw) (hnul : P.DecodeNulLaw) {line : List Byte}
    {cursor : Nat} {before : List Uchar} {errorFlag : Bool}
    (hbefore : P.utf8Decode ((cstr line).take cursor) = (before, errorFlag)) :
    (∃ buffer k, importUtf8 P line cursor = .ok (buffer, k) ∧ k ≤ buffer.length) ↔
      cursor ≤ (cstr line).length ∧
        (errorFlag = true → before.length < (P.utf8Decode (cstr line)).1.length) ∧
        (errorFlag = true → ∃ j < before.length, before[j]? = (P.utf8Decode (cstr line)).1[j]?) := by
  have hline : 0 ∉ (P.utf8Decode (cstr line)).1 := hnul _ (zero_notMem_cstr line)
  by_cases hcursor : cursor ≤ (cstr line).length
  · cases errorFlag with
    | false =>
      rw [importUtf8_wellFormed hcursor hbefore]
      have happend := hdecode ((cstr line).take cursor) ((cstr line).drop cursor) (by rw [hbefore])
      rw [List.take_append_drop, hbefore] at happend
      have hnone : ∀ p : Prop, false = true → p := fun _ h => absurd h Bool.false_ne_true
      refine ⟨fun _ => ⟨hcursor, hnone _, hnone _⟩, fun _ => ⟨_, _, rfl, ?_⟩⟩
      rw [happend, List.length_append]
      exact Nat.le_add_right _ _
    | true =>
      rw [importUtf8_malformed hcursor hbefore]
      generalize (P.utf8Decode (cstr line)).1 = ucLine at hline ⊢
      simp only [hcursor, true_and, forall_const]
      rw [← adjustCursor_within_iff hline]
      cases adjustCursor ucLine before before.length with
      | error fault =>
        constructor
        · rintro ⟨_, _, h, -⟩
          cases h
        · rintro ⟨_, h, -⟩
          cases h
      | ok adjust =>
        constructor
        · rintro ⟨buffer, k, h, hle⟩
          obtain ⟨rfl, rfl⟩ := Prod.mk.inj (Except.ok.inj h)
          exact ⟨adjust, rfl, hle⟩
        · rintro ⟨k, h, hlt⟩
          obtain rfl := Except.ok.inj h
          exact ⟨_, _, rfl, hlt⟩
  · have houtside : importUtf8 P line cursor = .error .outOfBounds := by
      simp only [importUtf8, if_pos (Nat.lt_of_not_le hcursor)]
    rw [houtside]
    constructor
    · rintro ⟨_, _, h, -⟩
      cases h
    · exact fun h => absurd h.1 hcursor

/-- What the answer of a handler is turned into is a line with the cursor within it
exactly if the handler returned one, cut between two characters or in a place the
backtracking finds. -/
theorem callHandler_within_iff (hdecode : P.DecodeLaw) (hnul : P.DecodeNulLaw)
    (handler : EscapeHandler) {line : LineData} (hcursor : line.cursor ≤ line.buffer.length) :
    (∃ buffer k, callHandler P handler line.buffer line.cursor = .ok (buffer, k) ∧
        k ≤ buffer.length) ↔
      handler.Within P line ∧ handler.CutsWell P line ∧ handler.Shares P line := by
  obtain ⟨id, func | func⟩ := handler
  · rw [callHandler]
    dsimp only
    rw [if_neg (Nat.not_lt.mpr hcursor)]
    exact importUtf8_within_iff hdecode hnul rfl
  · constructor
    · rintro ⟨buffer, k, h, hle⟩
      obtain ⟨rfl, rfl⟩ := Prod.mk.inj (Except.ok.inj h)
      exact ⟨hle, trivial, trivial⟩
    · rintro ⟨hle, -, -⟩
      exact ⟨_, _, rfl, hle⟩

end Any

/-! ### Behind an answer -/

/-- The cursors are in order, where there is a render cursor, and within the line. -/
structure Editor.Ordered (e : Editor) : Prop where
  cursor_le : e.line.cursor ≤ e.line.buffer.length
  renderCursor_le : e.screen.render.echoMode ≠ .off → e.line.renderCursor ≤ e.line.cursor

/-- The accesses that editing and drawing make to the line: an insertion at the cursor,
and walks of the render cursor over the line, or over the line with its terminator from
where it was or from its end. -/
structure Editor.InRange (P : Platform) (e : Editor) : Prop where
  insert : ∀ text, (vecBulkInsert e.line.buffer e.line.cursor text).1 = .ok
  move : ∀ pos ≤ e.line.buffer.length, e.screen.render.echoMode = .on →
    normalSteps P pos e.line ≠ .error .nullDeref
  redraw : ∀ pos ≤ e.line.buffer.length, e.screen.render.echoMode = .on →
    normalSteps P pos { e.line with buffer := e.line.buffer ++ [0] } ≠ .error .nullDeref ∧
      normalSteps P pos { e.line with
        buffer := e.line.buffer ++ [0], renderCursor := e.line.buffer.length } ≠ .error .nullDeref

/-- The line has fewer than 2³¹ characters, so that positions are in order as `int32_t`. -/
def Editor.Short (e : Editor) : Prop := e.line.buffer.length < 2 ^ 31

instance (e : Editor) : Decidable e.Short := inferInstanceAs (Decidable (_ < _))

section Behind

variable {P : Platform} {t : Terminfo} {e e' : Editor}

theorem Editor.Ordered.inRange (h : e.Ordered) (hshort : e.Short) : e.InRange P := by
  have hshort : e.line.buffer.length < 2 ^ 31 := hshort
  have hcursor := h.cursor_le
  have hwalk : ∀ {line : LineData} {pos : Nat}, e.line.buffer.length ≤ line.buffer.length →
      line.buffer.length < 2 ^ 32 → line.renderCursor ≤ e.line.buffer.length →
      pos ≤ e.line.buffer.length → normalSteps P pos line ≠ .error .nullDeref := by
    intro line pos hlen hsmall hrc hpos heq
    have hwithin : Run.Ends _ _ (modeSteps P .on pos line) := modeSteps_within hlen hsmall hshort hrc hpos
    exact absurd (hwithin.of_error heq).1 (by decide)
  have hrc : e.screen.render.echoMode = .on → e.line.renderCursor ≤ e.line.buffer.length := fun hmode =>
    (h.renderCursor_le (by rw [hmode]; decide)).trans hcursor
  refine ⟨fun text => ?_, fun pos hpos hmode => ?_, fun pos hpos hmode => ⟨?_, ?_⟩⟩
  · rw [vecBulkInsert, if_pos hcursor]
  · exact hwalk (Nat.le_refl _) (by omega) (hrc hmode) hpos
  · exact hwalk (by simp) (by simp; omega) (hrc hmode) hpos
  · exact hwalk (by simp) (by simp; omega) (Nat.le_refl _) hpos

/-- A move of the render cursor that comes to an end ends where it was sent. -/
theorem Reaches.renderCursor {mode : EchoMode} (hmode : mode ≠ .off) {pos : Nat}
    (hlen : e.line.buffer.length < 2 ^ 32) (hle : e.line.renderCursor ≤ e.line.buffer.length)
    (hpos : pos ≤ e.line.buffer.length) (h : Reaches (modeSteps P mode) pos e e') :
    e'.line.renderCursor = pos := by
  obtain ⟨renderCursor, location, moved, ⟨moveWidth, hsteps, -⟩, hline, -⟩ := h
  rw [hline]
  exact (modeSteps_ok hmode hlen hle hpos hsteps).1

theorem Editor.Ordered.sync (h : e.Ordered) (hshort : e.Short) {cursor : Nat}
    (hcursor : cursor ≤ e.line.buffer.length)
    (hsync : nrlRenderSyncCursors P t { e with line := { e.line with cursor } } = .ok e') :
    e'.Ordered := by
  have hshort : e.line.buffer.length < 2 ^ 31 := hshort
  have hsyncs := nrlRenderSyncCursors_ok P t hsync
  obtain ⟨cursorPos, hrender⟩ := hsyncs.render
  refine ⟨?_, fun hmode => ?_⟩
  · rw [hsyncs.text.buffer, hsyncs.text.cursor]
    exact hcursor
  · have hmode' : e.screen.render.echoMode ≠ .off := by
      rw [hrender] at hmode
      exact hmode
    obtain ⟨e₁, hreach, hline, -⟩ := hsyncs.reaches hmode'
    rw [hsyncs.text.cursor, hline]
    exact Nat.le_of_eq (Reaches.renderCursor (e := { e with line := { e.line with cursor } }) hmode'
      (Nat.lt_trans hshort (by decide))
      ((h.renderCursor_le hmode').trans h.cursor_le) hcursor hreach)

/-- A redraw that is not on a smart terminal leaves the render cursor where it is. -/
theorem redrawByMode_dumb (hdumb : e.screen.render.termSmart = false)
    (h : redrawByMode P t e = .ok e') : e'.line = e.line := by
  rw [redrawByMode] at h
  split at h
  · rw [redrawNormal, hdumb, if_pos (by decide)] at h
    split at h
    · cases h
    · obtain ⟨screen, -, h⟩ := Run.bind_eq_ok.mp h
      obtain rfl := Except.ok.inj h
      rfl
  · rw [redrawObscured, hdumb] at h
    dsimp only at h
    rw [if_pos (by decide)] at h
    obtain ⟨screen, -, h⟩ := Run.bind_eq_ok.mp h
    obtain rfl := Except.ok.inj h
    rfl
  · obtain rfl := Except.ok.inj h
    rfl

theorem Editor.Ordered.redraw (h : e.Ordered) (hshort : e.Short)
    (hredraw : nrlRenderRedraw P t e = .ok e') : e'.Ordered := by
  have hshort : e.line.buffer.length < 2 ^ 31 := hshort
  have htext := (nrlRenderRedraw_ok P t hredraw).text
  obtain ⟨screen, hrequery, hredraw⟩ := Run.bind_eq_ok.mp hredraw
  obtain ⟨e₁, hdraw, hredraw⟩ := Run.bind_eq_ok.mp hredraw
  obtain ⟨s', hflush, hredraw⟩ := Run.bind_eq_ok.mp hredraw
  obtain rfl := Except.ok.inj hredraw
  have hrequeries := (requery_ends (F := fun _ => True) P t e.screen).of_ok hrequery
  have hflushed := (Screen.flush_ends (F := fun _ => True) P _).of_ok hflush
  have hdrawn := (redrawByMode_ends (F := fun _ => True) P t _ fun _ => trivial).of_ok hdraw
  obtain ⟨_, _, hrequeried⟩ := hrequeries.render
  obtain ⟨_, _, _, hrender⟩ := hdrawn.render
  refine ⟨?_, fun hmode => ?_⟩
  · rw [htext.buffer, htext.cursor]
    exact h.cursor_le
  · rw [htext.cursor]
    show e₁.line.renderCursor ≤ e.line.cursor
    have hmode₁ : screen.render.echoMode ≠ .off := by
      rw [hflushed.render, hrender] at hmode
      exact hmode
    have hmode₀ : e.screen.render.echoMode ≠ .off := by
      rw [hrequeried] at hmode₁
      exact hmode₁
    cases hsmart : screen.render.termSmart with
    | false =>
      rw [redrawByMode_dumb hsmart hdraw]
      exact h.renderCursor_le hmode₀
    | true =>
      obtain ⟨_, _, _, -, -, -, hend⟩ := hdrawn.ofLine hsmart hmode₁
      have hcursor := h.cursor_le
      exact Nat.le_of_eq (hend.renderCursor hmode₁ (by simp; omega) (by simp) (by simp; omega))

theorem Editor.Ordered.delete (h : e.Ordered) (hdelete : escapeDelete P e = .ok e') : e'.Ordered := by
  rw [escapeDelete_eq] at hdelete
  obtain rfl := Except.ok.inj hdelete
  split
  · rename_i hlt
    refine ⟨?_, h.renderCursor_le⟩
    dsimp only
    rw [List.length_eraseIdx_of_lt hlt]
    omega
  · exact h

/-- The step: every edit keeps the cursors in order. -/
theorem Editor.Ordered.perform (h : e.Ordered) (hshort : e.Short) {op : EditOp}
    (hop : op.perform P t e = .ok e') : e'.Ordered := by
  have hcursor := h.cursor_le
  have hleft : ∀ {e'}, escapeLeft P t e = .ok e' → e'.Ordered := by
    intro e' hleft
    rw [escapeLeft] at hleft
    split at hleft
    · exact h.sync hshort (by omega) hleft
    · exact Except.ok.inj hleft ▸ h
  cases op with
  | insert text =>
    have hinsert : nrlManipInsertText P text e = .ok e' := hop
    rw [nrlManipInsertText_eq P text hcursor] at hinsert
    obtain rfl := Except.ok.inj hinsert
    refine ⟨?_, fun hmode => Nat.le_add_right_of_le (h.renderCursor_le hmode)⟩
    dsimp only
    rw [List.length_append, List.length_append, List.length_take_of_le hcursor]
    omega
  | redraw => exact h.redraw hshort hop
  | sync => exact h.sync hshort hcursor hop
  | escape key =>
    have hkey : nrlManipEvalEscape P t key.id e = .ok e' := hop
    rw [nrlManipEvalEscape_key] at hkey
    cases key with
    | keyLeft => exact hleft hkey
    | keyRight =>
      dsimp only at hkey
      rw [escapeRight] at hkey
      split at hkey
      · rename_i hlt
        exact h.sync hshort hlt hkey
      · exact Except.ok.inj hkey ▸ h
    | keyBackspace =>
      dsimp only at hkey
      rw [escapeBackspace] at hkey
      split at hkey
      · obtain ⟨e₁, hmove, hdelete⟩ := Run.bind_eq_ok.mp hkey
        exact (hleft hmove).delete hdelete
      · exact Except.ok.inj hkey ▸ h
    | keyDelete => exact h.delete hkey
    | keyHome => exact h.sync hshort (Nat.zero_le _) hkey
    | keyEnd => exact h.sync hshort (Nat.le_refl _) hkey

/-- A walk to the beginning of the line ends there, wherever it set out. -/
theorem modeSteps_home {mode : EchoMode} (hmode : mode ≠ .off) {line : LineData} {renderCursor : Nat}
    {moveWidth : Int} (h : modeSteps P mode 0 line = .ok (renderCursor, moveWidth)) :
    renderCursor = 0 := by
  have hwalk : ∀ {buffer : List Uchar} {dirFwd : Bool} {fuel rc : Nat} {width : Int},
      stepCursor P buffer 0 dirFwd fuel rc width = .ok (renderCursor, moveWidth) → renderCursor = 0 := by
    intro buffer dirFwd fuel
    induction fuel with
    | zero => exact fun h => (by cases h)
    | succ fuel ih =>
      intro rc width h
      rw [stepCursor] at h
      split at h
      · rename_i heq
        obtain ⟨rfl, -⟩ := Prod.mk.inj (Except.ok.inj h)
        exact heq
      · dsimp only at h
        split at h
        · cases h
        · obtain ⟨_, -, h⟩ := Run.bind_eq_ok.mp h
          split at h <;> exact ih h
  cases mode with
  | off => exact absurd rfl hmode
  | on => exact hwalk h
  | obscured =>
    obtain ⟨rfl, -⟩ := Prod.mk.inj (Except.ok.inj h)
    rw [int32_sub, uint32_int32_add]
    unfold uint32
    omega

/-- The handler is called with the terminal's cursor at the beginning of the line. -/
theorem syncCursors_home {e e₁ : Editor}
    (hsync : nrlRenderSyncCursors P t { e with line := { e.line with cursor := 0 } } = .ok e₁)
    (hmode : e₁.screen.render.echoMode ≠ .off) : e₁.line.renderCursor = 0 := by
  have hsyncs := nrlRenderSyncCursors_ok P t hsync
  obtain ⟨cursorPos, hrender⟩ := hsyncs.render
  have hmode' : e.screen.render.echoMode ≠ .off := by
    rw [hrender] at hmode
    exact hmode
  obtain ⟨e₀, ⟨renderCursor, _, _, ⟨_, hsteps, -⟩, hmoved, -⟩, hline, -⟩ := hsyncs.reaches hmode'
  rw [hline, hmoved]
  exact modeSteps_home hmode' hsteps

end Behind

/-- **No answer breaks the editor, except.** The cursor ends up within the line exactly
if the handler returns one that is and, in UTF-8, one that is not inside a character or
is brought back from there. Then every access that edits and redraws make to the line
is within it, as long as the line is short. -/
theorem answers_inRange_iff {P : Platform} (hdecode : P.DecodeLaw) (hnul : P.DecodeNulLaw)
    {t : Terminfo} {table : EscapeTable} {escape : Nat} {handler : EscapeHandler}
    (htable : table escape = some handler) {e e₁ : Editor}
    (hcursor : e.line.cursor ≤ e.line.buffer.length)
    (hsync : nrlRenderSyncCursors P t { e with line := { e.line with cursor := 0 } } = .ok e₁) :
    ((∃ e', nrlManipEvalCustom P t table escape e = .ok (true, e') ∧
        e'.line.cursor ≤ e'.line.buffer.length) ↔
      handler.Within P e.line ∧ handler.CutsWell P e.line ∧ handler.Shares P e.line) ∧
    ∀ e', nrlManipEvalCustom P t table escape e = .ok (true, e') →
      e'.line.cursor ≤ e'.line.buffer.length →
      ∀ (ops : List EditOp) (e'' : Editor),
        Run.Guarded (EditOp.perform P t) (fun _ e => e.Short) ops e' →
        Run.exec (EditOp.perform P t) ops e' = .ok e'' → e''.Short → e''.InRange P := by
  constructor
  · rw [← callHandler_within_iff hdecode hnul handler hcursor]
    simp only [nrlManipEvalCustom_ok_iff htable hsync]
    constructor
    · rintro ⟨_, ⟨answer, hcall, rfl⟩, hle⟩
      exact ⟨answer.1, answer.2, hcall, hle⟩
    · rintro ⟨buffer, k, hcall, hle⟩
      exact ⟨_, ⟨(buffer, k), hcall, rfl⟩, hle⟩
  · intro e' heval hle ops e'' hguarded hexec hshort
    have hstart : e'.Ordered := by
      refine ⟨hle, fun hmode => ?_⟩
      obtain ⟨answer, -, rfl⟩ := (nrlManipEvalCustom_ok_iff htable hsync).mp heval
      have hzero : e₁.line.renderCursor = 0 := syncCursors_home hsync hmode
      exact (Nat.le_of_eq hzero).trans (Nat.zero_le _)
    exact (Run.exec_guarded (I := Editor.Ordered)
      (fun op e e' hI hC hop => hI.perform hC hop) hstart hguarded hexec).inRange hshort

/-- The text of this handler begins with `é` and its cursor is behind it. -/
theorem answers_inRange_accent :
    ∃ e', nrlManipEvalCustom referencePlatform xtermTerminfo prependTable 0 accentEditor =
        .ok (true, e') ∧ e'.line.cursor ≤ e'.line.buffer.length ∧ e'.InRange referencePlatform := by
  obtain ⟨e₁, hsync⟩ := accentEditor_syncs
  obtain ⟨hiff, hrange⟩ := answers_inRange_iff referencePlatform_decode referencePlatform_decodeNul
    (show prependTable 0 = some prependUtf8 from rfl) (e := accentEditor) (by decide) hsync
  have hshares : prependUtf8.Shares referencePlatform accentEditor.line := by
    intro herror
    revert herror
    decide +kernel
  obtain ⟨e', heval, hle⟩ := hiff.mpr ⟨by decide +kernel, by decide +kernel, hshares⟩
  have hbuffer : (nrlManipEvalCustom referencePlatform xtermTerminfo prependTable 0
      accentEditor).map (fun r => decide r.2.Short) = .ok true := by decide +kernel
  rw [heval] at hbuffer
  exact ⟨e', heval, hle, hrange e' heval hle [] e' trivial rfl
    (of_decide_eq_true (Except.ok.inj hbuffer))⟩

/-- A handler on code points that puts the cursor behind the line, and the insertion
that follows. -/
theorem answers_outOfRange :
    (nrlManipEvalCustom referencePlatform xtermTerminfo
        (fun _ => some { id := 0, func := .utf32 fun _ _ _ => ([97], 2) }) 0 accentEditor).map
      (fun r => (r.2.line.buffer, r.2.line.cursor)) = .ok ([97], 2) ∧
    (nrlManipEvalCustom referencePlatform xtermTerminfo
        (fun _ => some { id := 0, func := .utf32 fun _ _ _ => ([97], 2) }) 0 accentEditor >>=
      fun r => nrlManipInsertText referencePlatform [98] r.2).map (fun e => e.line.cursor) =
      .error (.assertion .vectorStatus) := by
  decide +kernel

end Nanorl
