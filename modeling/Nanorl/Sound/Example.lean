import Nanorl.Model.Example
import Nanorl.Sound.Interactive

/-!
# Nanorl.Sound.Example

The tab key of the example program.

Its handler inserts four spaces in front of the cursor, and is well-behaved as a function of code
points. So a text that is typed with it gets four spaces for every tab (`typedLine_tabs`).
-/

namespace Nanorl

/-! ### The handler -/

/-- What `tab_func` computes, on code points. -/
def tabPoints (text : List Char) (cursor : Nat) : List Char × Nat :=
  (text.take cursor ++ List.replicate 4 ' ' ++ text.drop cursor, cursor + 4)

theorem tabPoints_edits : EditsPoints tabPoints := by
  intro text cursor hnul hcursor
  constructor
  · intro hmem
    rcases List.mem_append.mp hmem with hmem | hmem
    · rcases List.mem_append.mp hmem with hmem | hmem
      · exact hnul (List.mem_of_mem_take hmem)
      · exact absurd (List.eq_of_mem_replicate hmem) (by decide)
    · exact hnul (List.mem_of_mem_drop hmem)
  · simp only [tabPoints, List.length_append, List.length_take_of_le hcursor, List.length_replicate]
    omega

theorem tabHandler_computes : tabHandler.Computes tabPoints := by
  intro text cursor _ hcursor
  have hspaces : encoded (List.replicate 4 ' ') = ascii "    " := rfl
  have happend : ∀ text rest, encoded (text ++ rest) = encoded text ++ encoded rest := fun _ _ =>
    List.flatMap_append
  have hdrop : (encoded text).drop (byteCursor text cursor) = encoded (text.drop cursor) := by
    rw [encoded_split text cursor, byteCursor, List.drop_left]
  have htake : (tabPoints text cursor).1.take (cursor + 4) = text.take cursor ++ List.replicate 4 ' ' := by
    rw [tabPoints, List.take_left' (by simp [hcursor])]
  dsimp only [tabHandler]
  rw [tabFunc, take_byteCursor, hdrop, show (tabPoints text cursor).2 = cursor + 4 from rfl,
    show byteCursor (tabPoints text cursor).1 (cursor + 4) = _ from congrArg (List.length ∘ encoded) htake,
    Function.comp, happend, hspaces, List.length_append, tabPoints, happend, happend, hspaces]
  rfl

/-- The handlers of `ex_escape_utf8`. -/
def tabEdits (id : Nat) : Option (List Char → Nat → List Char × Nat) :=
  if id = 28 then some tabPoints else none

theorem exEscapeUtf8_computes : (openedTable exEscapeUtf8 .on nrlManipClearCustomTable).Computes tabEdits := by
  have htable : ∀ id, openedTable exEscapeUtf8 .on nrlManipClearCustomTable id =
      if id = 28 then some tabHandler else none := by
    intro id
    show (if ((id : Nat) : Int) = 28 then some tabHandler else none) = _
    exact if_congr (by omega) rfl rfl
  constructor
  · intro id handler hhandler
    rw [htable] at hhandler
    split at hhandler
    · rename_i hid
      obtain rfl := Option.some.inj hhandler
      exact ⟨tabPoints, if_pos hid, tabPoints_edits, tabHandler_computes⟩
    · cases hhandler
  · intro id hnone
    rw [htable] at hnone
    split at hnone
    · cases hnone
    · rename_i hid
      exact if_neg hid

/-! ### Typing tabs -/

section Tabs

variable {P : Platform} {keys : List DfaEntry} {f : Frame}

/-- The tab key of xterm. -/
def xtermTab : Keystroke := .key ⟨[9], ⟨28⟩, true⟩

/-- The text with four spaces for each tab. -/
def expandTabs (text : List Char) : List Char :=
  text.flatMap fun c => if c = '\t' then List.replicate 4 ' ' else [c]

/-- A tab is typed with its key. -/
def tabKeystroke (c : Char) : Keystroke := if c = '\t' then xtermTab else .char c

theorem typedBytes_tabs (text : List Char) : typedBytes (text.map tabKeystroke) = utf8 text := by
  induction text with
  | nil => rfl
  | cons c text ih =>
    have hbytes : (tabKeystroke c).bytes = String.utf8EncodeChar c := by
      unfold tabKeystroke
      split
      · rename_i htab
        rw [htab]
        rfl
      · rfl
    rw [List.map_cons, typedBytes_cons, ih, hbytes]
    rfl

/-- The tab key of the example puts in four spaces. -/
theorem handledKey_tab {z : Zipper Uchar} (hz : ∀ c ∈ z.toList, c.isValidChar) :
    handledKey tabPoints z = z.insert (List.replicate 4 32) := by
  have hvals := pointsOf_val hz
  have htake : ((pointsOf z).take z.cursor).map Char.val = z.left.reverse := by
    rw [List.map_take, hvals, z.take_cursor]
  have hdrop : ((pointsOf z).drop z.cursor).map Char.val = z.right := by
    rw [List.map_drop, hvals, z.drop_cursor]
  have hlength : z.left.reverse.length = z.cursor := List.length_reverse
  rw [handledKey, tabPoints, Zipper.ofList, List.map_append, List.map_append, htake, hdrop]
  dsimp only
  have hfront : (z.left.reverse ++ (List.replicate 4 ' ').map Char.val).length = z.cursor + 4 := by
    rw [List.length_append, hlength, List.length_map, List.length_replicate]
  rw [List.take_left' hfront, List.drop_left' hfront, List.reverse_append, List.reverse_reverse]
  rfl

theorem typedLine_tabs (t : Terminfo) {text : List Char} (hnul : Char.ofNat 0 ∉ text) {z : Zipper Uchar}
    (hz : ∀ c ∈ z.toList, c.isValidChar) :
    typedLine (customKey t true tabEdits) (text.map tabKeystroke) z =
      z.insert ((expandTabs text).map Char.val) := by
  induction text generalizing z with
  | nil => rfl
  | cons c text ih =>
    have hevent : lineEvent (customKey t true tabEdits) z (tabKeystroke c).event =
        z.insert ((expandTabs [c]).map Char.val) := by
      by_cases htab : c = '\t'
      · subst htab
        exact handledKey_tab hz
      · have hsingle : expandTabs [c] = [c] := by
          rw [expandTabs, List.flatMap_singleton, if_neg htab]
        rw [tabKeystroke, if_neg htab, hsingle]
        rfl
    have hvalid : ∀ d ∈ (z.insert ((expandTabs [c]).map Char.val)).toList, d.isValidChar := by
      intro d hd
      rcases Zipper.mem_insert.mp hd with hd | hd
      · obtain ⟨point, -, rfl⟩ := List.mem_map.mp hd
        exact point.valid
      · exact hz d hd
    have hsplit : expandTabs (c :: text) = expandTabs [c] ++ expandTabs text := by
      simp only [expandTabs, List.flatMap_cons, List.flatMap_nil, List.append_nil]
    rw [List.map_cons, typedLine, List.foldl_cons, hevent]
    refine (ih (fun hmem => hnul (List.mem_cons_of_mem _ hmem)) hvalid).trans ?_
    rw [hsplit, List.map_append, Zipper.insert_insert]

/-- A text of tabs and of characters of one column that start no key. -/
def TabText (P : Platform) (keys : List DfaEntry) (text : List Char) : Prop :=
  ∀ c ∈ text, c = '\t' ∨ Printable c ∧ Unclaimed (sequences keys) [c] ∧ P.ucwidth c.val = 1

instance (P : Platform) (keys : List DfaEntry) (text : List Char) : Decidable (TabText P keys text) :=
  decidable_of_iff ((text.all fun c => decide (c = '\t' ∨
    Printable c ∧ Unclaimed (sequences keys) [c] ∧ P.ucwidth c.val = 1)) = true) (by simp [TabText])

theorem TabText.typable {text : List Char} (h : TabText P keys text)
    (htab : ⟨[9], ⟨28⟩, true⟩ ∈ keys) : ∀ k ∈ text.map tabKeystroke, k.Typable P keys := by
  intro k hk
  obtain ⟨c, hc, rfl⟩ := List.mem_map.mp hk
  unfold tabKeystroke
  split
  · exact ⟨htab, by decide⟩
  · rename_i hchar
    rcases h c hc with heq | ⟨hprintable, hunclaimed, -⟩
    · exact absurd heq hchar
    · exact ⟨hprintable, hunclaimed⟩

theorem TabText.ne_nul {text : List Char} (h : TabText P keys text) : ∀ c ∈ text, c ≠ Char.ofNat 0 := by
  intro c hc heq
  subst heq
  rcases h _ hc with htab | ⟨hprintable, -⟩
  · exact absurd htab (by decide)
  · exact absurd hprintable.1 (by decide)

/-- What a tab text puts into a line has room where it is not too long. -/
theorem TabText.room {text : List Char} (h : TabText P keys text) (hspace : P.ucwidth 32 = 1)
    (hmode : f.mode = .on) (hrows : (expandTabs text).length ≤ (f.size.row - 1) * f.size.col) :
    f.Room P (Zipper.empty.insert ((expandTabs text).map Char.val)) := by
  have hentry : ∀ uc ∈ (Zipper.empty.insert ((expandTabs text).map Char.val)).toList,
      P.ucwidth uc = 1 ∧ uc.isValidChar ∧ uc ≠ 0 := by
    intro uc huc
    rcases Zipper.mem_insert.mp huc with huc | huc
    · obtain ⟨point, hpoint, rfl⟩ := List.mem_map.mp huc
      obtain ⟨c, hc, hpoint⟩ := List.mem_flatMap.mp hpoint
      split at hpoint
      · rw [List.eq_of_mem_replicate hpoint]
        exact ⟨hspace, Char.valid _, by decide⟩
      · rename_i hchar
        rw [List.mem_singleton] at hpoint
        subst hpoint
        rcases h _ hc with heq | ⟨-, -, hwidth⟩
        · exact absurd heq hchar
        · exact ⟨hwidth, Char.valid _, fun hzero => h.ne_nul _ hc (Char.ext hzero)⟩
    · exact absurd huc List.not_mem_nil
  refine ⟨fun uc huc => ?_, fun uc huc => (hentry uc huc).2, ?_⟩
  · rw [hmode]
    exact (hentry uc huc).1
  · rw [Zipper.toList_insert]
    simpa [Zipper.empty, Zipper.toList, Zipper.cursor] using hrows

end Tabs

end Nanorl
