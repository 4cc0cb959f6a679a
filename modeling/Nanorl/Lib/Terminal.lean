import Mathlib.Logic.Function.Basic
import Mathlib.Tactic.Ring

/-!
# Nanorl.Lib.Terminal

A **character terminal**: a grid of cells and a cursor.

* `print` puts a character under the cursor and moves on. In the last column it
  stays where it is, and only the next character goes on to the row below
  (`wrap`).
* `lineFeed` goes to the row below; on the bottom row the screen scrolls instead.
* `address` moves the cursor, as far as the screen goes.

What has scrolled away and what is still to come make the screen a window on an
endless sheet (`Covers`). On the sheet there is nothing left of wrapping and
scrolling: characters go to one cell after the other (`Covers.prints`), and the
window moves down no further than it has to (`Follows`).
Nothing here knows what the cells hold.
-/

universe u

/-- Cells are numbered row by row. -/
structure Terminal (α : Type u) where
  rows : Nat
  cols : Nat
  blank : α
  cells : Nat → α
  row : Nat
  col : Nat
  /-- The last column has been printed in, and the next character starts a row. -/
  wrap : Bool
  row_lt : row < rows
  col_lt : col < cols
  wrap_last : wrap = true → col + 1 = cols

namespace Terminal

variable {α : Type u}

/-! ### Commands -/

section Commands

variable (T : Terminal α)

/-- The cell the next character goes to, which is below the screen if it makes the
screen scroll. -/
def next : Nat := T.row * T.cols + T.col + if T.wrap then 1 else 0

/-- One row up, with blanks at the bottom. -/
def scrollUp : Terminal α :=
  { T with cells := fun p => if p + T.cols < T.rows * T.cols then T.cells (p + T.cols) else T.blank }

def lineFeed : Terminal α :=
  if h : T.row + 1 < T.rows then
    { T with
      row := T.row + 1
      wrap := false
      row_lt := h
      wrap_last := fun h => absurd h Bool.false_ne_true }
  else { T.scrollUp with wrap := false, wrap_last := fun h => absurd h Bool.false_ne_true }

def carriageReturn : Terminal α :=
  { T with
    col := 0
    wrap := false
    col_lt := Nat.zero_lt_of_lt T.col_lt
    wrap_last := fun h => absurd h Bool.false_ne_true }

/-- A character in the cell under the cursor. -/
def put (a : α) : Terminal α :=
  if h : T.col + 1 < T.cols then
    { T with
      cells := Function.update T.cells (T.row * T.cols + T.col) a
      col := T.col + 1
      wrap := false
      col_lt := h
      wrap_last := fun h => absurd h Bool.false_ne_true }
  else
    { T with
      cells := Function.update T.cells (T.row * T.cols + T.col) a
      wrap := true
      wrap_last := fun _ => Nat.le_antisymm T.col_lt (Nat.le_of_not_lt h) }

/-- The wrap that was waiting for a character. -/
def advance : Terminal α := if T.wrap then T.carriageReturn.lineFeed else T

def print (a : α) : Terminal α := T.advance.put a

def prints (text : List α) : Terminal α := text.foldl print T

/-- Positions outside the screen are taken for those at its edge. -/
def address (row col : Nat) : Terminal α :=
  { T with
    row := min row (T.rows - 1)
    col := min col (T.cols - 1)
    wrap := false
    row_lt := Nat.lt_of_le_of_lt (Nat.min_le_right _ _) (Nat.sub_one_lt_of_lt T.row_lt)
    col_lt := Nat.lt_of_le_of_lt (Nat.min_le_right _ _) (Nat.sub_one_lt_of_lt T.col_lt)
    wrap_last := fun h => absurd h Bool.false_ne_true }

/-- From cell `origin` on, which may be above the screen, there is `text` and then
blanks. -/
def Holds (origin : Int) (text : List α) : Prop :=
  ∀ i p : Nat, (p : Int) = origin + i → p < T.rows * T.cols → T.cells p = (text[i]?).getD T.blank

theorem next_le : T.next ≤ T.rows * T.cols := by
  have hrow : (T.row + 1) * T.cols ≤ T.rows * T.cols := Nat.mul_le_mul_right _ T.row_lt
  rw [Nat.succ_mul] at hrow
  have hcol := T.col_lt
  unfold next
  split <;> omega

/-- A character that will make the screen scroll waits on the bottom row. -/
theorem bottom_of_next (h : T.next = T.rows * T.cols) : T.row + 1 = T.rows := by
  have hcol := T.col_lt
  by_contra hne
  have hrow : (T.row + 1 + 1) * T.cols ≤ T.rows * T.cols :=
    Nat.mul_le_mul_right _ (Nat.lt_of_le_of_ne T.row_lt hne)
  rw [Nat.succ_mul, Nat.succ_mul] at hrow
  unfold next at h
  split at h <;> omega

/-! ### Sizes -/

/-- The screen has the dimensions of another, and the same blanks. -/
structure SameSize (T T' : Terminal α) : Prop where
  rows : T'.rows = T.rows
  cols : T'.cols = T.cols
  blank : T'.blank = T.blank

theorem SameSize.trans {T₁ T₂ T₃ : Terminal α} (h : T₁.SameSize T₂) (h' : T₂.SameSize T₃) :
    T₁.SameSize T₃ :=
  ⟨h'.rows.trans h.rows, h'.cols.trans h.cols, h'.blank.trans h.blank⟩

theorem sameSize_lineFeed : T.SameSize T.lineFeed := by
  unfold lineFeed
  split <;> exact ⟨rfl, rfl, rfl⟩

theorem sameSize_put (a : α) : T.SameSize (T.put a) := by
  unfold put
  split <;> exact ⟨rfl, rfl, rfl⟩

theorem sameSize_advance : T.SameSize T.advance := by
  unfold advance
  split
  · obtain ⟨hrows, hcols, hblank⟩ := T.carriageReturn.sameSize_lineFeed
    exact ⟨hrows, hcols, hblank⟩
  · exact ⟨rfl, rfl, rfl⟩

theorem sameSize_print (a : α) : T.SameSize (T.print a) :=
  T.sameSize_advance.trans (sameSize_put _ a)

theorem sameSize_prints (text : List α) : T.SameSize (T.prints text) := by
  induction text generalizing T with
  | nil => exact ⟨rfl, rfl, rfl⟩
  | cons a text ih => exact (T.sameSize_print a).trans (ih _)

theorem sameSize_address (row col : Nat) : T.SameSize (T.address row col) := ⟨rfl, rfl, rfl⟩

/-- A cursor without a pending wrap comes back to its place. -/
theorem address_back (hwrap : T.wrap = false) (row col : Nat) : (T.address row col).address T.row T.col = T := by
  have hr : min T.row (T.rows - 1) = T.row := Nat.min_eq_left (Nat.le_sub_one_of_lt T.row_lt)
  have hc : min T.col (T.cols - 1) = T.col := Nat.min_eq_left (Nat.le_sub_one_of_lt T.col_lt)
  obtain ⟨rows, cols, blank, cells, trow, tcol, wrap, row_lt, col_lt, wrap_last⟩ := T
  dsimp only at hwrap hr hc
  subst hwrap
  simp only [address, hr, hc]

/-- Within the screen an address is where the next character goes. -/
theorem next_address {row col : Nat} (hrow : row < T.rows) (hcol : col < T.cols) :
    (T.address row col).next = row * T.cols + col := by
  have hr : min row (T.rows - 1) = row := by omega
  have hc : min col (T.cols - 1) = col := by omega
  simp [next, address, hr, hc]

end Commands

/-! ### The sheet -/

/-- `text` on a sheet, from cell `n` on. -/
def overwrite (sheet : Nat → α) (n : Nat) : List α → Nat → α
  | [] => sheet
  | a :: text => overwrite (Function.update sheet n a) (n + 1) text

theorem overwrite_apply (sheet : Nat → α) (n : Nat) (text : List α) (q : Nat) :
    overwrite sheet n text q = if n ≤ q then (text[q - n]?).getD (sheet q) else sheet q := by
  induction text generalizing sheet n with
  | nil => simp [overwrite]
  | cons a text ih =>
    rw [overwrite, ih]
    rcases Nat.lt_trichotomy q n with hlt | rfl | hgt
    · rw [if_neg (by omega), if_neg (by omega), Function.update_of_ne (by omega)]
    · simp
    · obtain ⟨j, rfl⟩ : ∃ j, q = n + 1 + j := ⟨q - (n + 1), by omega⟩
      have hsub : n + 1 + j - n = j + 1 := by omega
      rw [if_pos (by omega), if_pos (by omega), Function.update_of_ne (by omega),
        Nat.add_sub_cancel_left, hsub, List.getElem?_cons_succ]

theorem overwrite_at (sheet : Nat → α) (n : Nat) (text : List α) (i : Nat) :
    overwrite sheet n text (n + i) = (text[i]?).getD (sheet (n + i)) := by
  rw [overwrite_apply, if_pos (Nat.le_add_right _ _), Nat.add_sub_cancel_left]

/-- The screen shows the rows of the sheet from `top` on, below which the sheet is
blank. -/
structure Covers (T : Terminal α) (sheet : Nat → α) (top : Nat) : Prop where
  cells : ∀ p < T.rows * T.cols, T.cells p = sheet (top * T.cols + p)
  below : ∀ q, (top + T.rows) * T.cols ≤ q → sheet q = T.blank

/-- A window of `rows` rows has moved from `top` down to `top'`, and if it has moved at
all, cell `pos - 1` is in its last row. -/
structure Follows (rows cols top top' pos : Nat) : Prop where
  le : top ≤ top'
  least : top < top' → (top' + rows) * cols < pos + cols

theorem Follows.refl (rows cols top pos : Nat) : Follows rows cols top top pos :=
  ⟨Nat.le_refl _, fun h => absurd h (Nat.lt_irrefl _)⟩

theorem Follows.trans {rows cols top₁ top₂ top₃ pos pos' : Nat} (h : Follows rows cols top₁ top₂ pos)
    (h' : Follows rows cols top₂ top₃ pos') (hpos : pos ≤ pos') : Follows rows cols top₁ top₃ pos' := by
  refine ⟨h.le.trans h'.le, fun hlt => ?_⟩
  rcases Nat.lt_or_eq_of_le h'.le with hmoved | rfl
  · exact h'.least hmoved
  · have := h.least hlt
    omega

/-- Where a window that follows the cell before `row`, `col` comes to stand. -/
theorem Follows.top_eq {rows cols top top' row col : Nat}
    (h : Follows rows cols top top' ((top + row) * cols + col)) (hcol : col < cols)
    (hle : (top + row) * cols + col ≤ (top' + rows) * cols) :
    top' + (if rows ≤ row ∧ col = 0 then 1 else 0) = top + (row + 1 - rows) := by
  have htop := h.le
  have hat : top + row ≤ top' + rows :=
    Nat.le_of_mul_le_mul_right (Nat.le_trans (Nat.le_add_right _ _) hle) (Nat.zero_lt_of_lt hcol)
  have hbehind : 0 < col → top + row < top' + rows := fun hpos =>
    Nat.lt_of_mul_lt_mul_right (Nat.lt_of_lt_of_le (Nat.lt_add_of_pos_right hpos) hle)
  have hmoved : top < top' → top' + rows < top + row + (if col = 0 then 1 else 2) := by
    intro hlt
    refine Nat.lt_of_mul_lt_mul_right (a := cols) (Nat.lt_of_lt_of_le (h.least hlt) ?_)
    split
    · rw [Nat.add_mul (top + row) 1 cols]
      omega
    · rw [Nat.add_mul (top + row) 2 cols]
      omega
  split at hmoved <;> split <;> omega

namespace Covers

variable {T : Terminal α} {sheet : Nat → α} {top : Nat}

theorem carriageReturn (h : T.Covers sheet top) : T.carriageReturn.Covers sheet top :=
  ⟨h.cells, h.below⟩

theorem address (h : T.Covers sheet top) (row col : Nat) : (T.address row col).Covers sheet top :=
  ⟨h.cells, h.below⟩

/-- Above the bottom row a line feed moves the cursor. -/
theorem lineFeed_above (h : T.Covers sheet top) (hrow : T.row + 1 < T.rows) :
    T.lineFeed.Covers sheet top := by
  unfold Terminal.lineFeed
  rw [dif_pos hrow]
  exact ⟨h.cells, h.below⟩

/-- On the bottom row it moves the window. -/
theorem lineFeed_bottom (h : T.Covers sheet top) (hrow : T.row + 1 = T.rows) :
    T.lineFeed.Covers sheet (top + 1) := by
  unfold Terminal.lineFeed
  rw [dif_neg (by omega)]
  have hbelow : ∀ q, (top + 1 + T.rows) * T.cols ≤ q → sheet q = T.blank := fun q hq =>
    h.below q (le_trans (Nat.mul_le_mul_right _ (by omega)) hq)
  refine ⟨fun p hp => ?_, hbelow⟩
  have hsum : (top + 1) * T.cols + p = top * T.cols + (p + T.cols) := by ring
  show (if p + T.cols < T.rows * T.cols then T.cells (p + T.cols) else T.blank) =
    sheet ((top + 1) * T.cols + p)
  rw [hsum]
  split
  · rename_i hlt
    exact h.cells _ hlt
  · rename_i hge
    refine (h.below _ ?_).symm
    rw [Nat.add_mul]
    omega

theorem put (h : T.Covers sheet top) (a : α) :
    (T.put a).Covers (Function.update sheet (top * T.cols + (T.row * T.cols + T.col)) a) top := by
  have hin : T.row * T.cols + T.col < T.rows * T.cols := by
    have hrow : (T.row + 1) * T.cols ≤ T.rows * T.cols := Nat.mul_le_mul_right _ T.row_lt
    rw [Nat.succ_mul] at hrow
    have hcol := T.col_lt
    omega
  have hcells : ∀ p < T.rows * T.cols,
      Function.update T.cells (T.row * T.cols + T.col) a p =
        Function.update sheet (top * T.cols + (T.row * T.cols + T.col)) a (top * T.cols + p) := by
    intro p hp
    by_cases heq : p = T.row * T.cols + T.col
    · rw [heq, Function.update_self, Function.update_self]
    · rw [Function.update_of_ne heq, Function.update_of_ne (by omega), h.cells p hp]
  have hbelow : ∀ q, (top + T.rows) * T.cols ≤ q →
      Function.update sheet (top * T.cols + (T.row * T.cols + T.col)) a q = T.blank := by
    intro q hq
    rw [Nat.add_mul] at hq
    rw [Function.update_of_ne (by omega)]
    exact h.below q (by rwa [Nat.add_mul])
  unfold Terminal.put
  split <;> exact ⟨hcells, hbelow⟩

end Covers

theorem next_put (T : Terminal α) (a : α) : (T.put a).next = T.row * T.cols + T.col + 1 := by
  unfold put
  split <;> rfl

/-- Where the cursor has to go for the next character, the window goes with it. -/
theorem Covers.advance {T : Terminal α} {sheet : Nat → α} {top : Nat} (h : T.Covers sheet top) :
    ∃ top', T.advance.Covers sheet top' ∧
      top' * T.cols + (T.advance.row * T.cols + T.advance.col) = top * T.cols + T.next ∧
      Follows T.rows T.cols top top' (top * T.cols + T.next + 1) := by
  unfold Terminal.advance Terminal.next
  cases hwrap : T.wrap with
  | false => exact ⟨top, h, rfl, .refl _ _ _ _⟩
  | true =>
    have hlast := T.wrap_last hwrap
    rw [if_pos rfl, if_pos rfl]
    have hline : T.carriageReturn.lineFeed.col = 0 := by
      unfold lineFeed
      split <;> rfl
    by_cases hrow : T.row + 1 < T.rows
    · refine ⟨top, h.carriageReturn.lineFeed_above hrow, ?_, .refl _ _ _ _⟩
      have hdown : T.carriageReturn.lineFeed.row = T.row + 1 := by
        unfold lineFeed
        rw [dif_pos (show T.carriageReturn.row + 1 < T.carriageReturn.rows from hrow)]
        rfl
      rw [hline, hdown, Nat.add_mul]
      omega
    · have hbottom : T.row + 1 = T.rows := Nat.le_antisymm T.row_lt (Nat.le_of_not_lt hrow)
      refine ⟨top + 1, h.carriageReturn.lineFeed_bottom hbottom, ?_, Nat.le_succ _, fun _ => ?_⟩
      · have hstay : T.carriageReturn.lineFeed.row = T.row := by
          unfold lineFeed
          rw [dif_neg (show ¬ T.carriageReturn.row + 1 < T.carriageReturn.rows from hrow)]
          rfl
        rw [hline, hstay, Nat.add_mul]
        omega
      · rw [← hbottom]
        have hsum : (top + 1 + (T.row + 1)) * T.cols = top * T.cols + T.row * T.cols + T.cols + T.cols := by
          ring
        omega

/-- A character goes to the next cell of the sheet. -/
theorem Covers.print {T : Terminal α} {sheet : Nat → α} {top : Nat} (h : T.Covers sheet top) (a : α) :
    ∃ top', (T.print a).Covers (Function.update sheet (top * T.cols + T.next) a) top' ∧
      top' * T.cols + (T.print a).next = top * T.cols + T.next + 1 ∧
      Follows T.rows T.cols top top' (top * T.cols + T.next + 1) := by
  obtain ⟨top', hcovers, hpos, hfollows⟩ := h.advance
  have hput := hcovers.put a
  have hnext := T.advance.next_put a
  rw [T.sameSize_advance.cols] at hput hnext
  rw [hpos] at hput
  refine ⟨top', hput, ?_, hfollows⟩
  show top' * T.cols + (T.advance.put a).next = _
  omega

/-- **Text on the sheet.** Text goes to one cell after the other, and the window moves no
further than it has to. -/
theorem Covers.prints {T : Terminal α} {sheet : Nat → α} {top : Nat} (h : T.Covers sheet top)
    (text : List α) :
    ∃ top', (T.prints text).Covers (overwrite sheet (top * T.cols + T.next) text) top' ∧
      top' * T.cols + (T.prints text).next = top * T.cols + T.next + text.length ∧
      Follows T.rows T.cols top top' (top * T.cols + T.next + text.length) := by
  induction text generalizing T sheet top with
  | nil => exact ⟨top, h, rfl, .refl _ _ _ _⟩
  | cons a text ih =>
    obtain ⟨top₁, hcovers₁, hpos₁, hfollows₁⟩ := h.print a
    obtain ⟨top₂, hcovers₂, hpos₂, hfollows₂⟩ := ih hcovers₁
    have hsize := T.sameSize_print a
    rw [hsize.cols, hpos₁] at hcovers₂ hpos₂
    rw [hsize.rows, hsize.cols, hpos₁] at hfollows₂
    have hlen : top * T.cols + T.next + (a :: text).length =
        top * T.cols + T.next + 1 + text.length := by
      rw [List.length_cons]
      omega
    rw [hlen]
    exact ⟨top₂, hcovers₂, hpos₂, hfollows₁.trans hfollows₂ (Nat.le_add_right _ _)⟩

/-- The line feed behind a text that ends in the last cell of the screen, or behind. -/
theorem Covers.prints_lineFeed {T : Terminal α} {sheet : Nat → α} {top : Nat} (h : T.Covers sheet top)
    {text : List α} {row col : Nat} (hcol : col < T.cols)
    (hend : (top + row) * T.cols + col = top * T.cols + T.next + text.length)
    (hbottom : T.rows ≤ row ∧ col = 0) :
    (T.prints text).lineFeed.Covers (overwrite sheet (top * T.cols + T.next) text)
      (top + (row + 1 - T.rows)) := by
  obtain ⟨top', hcovers, hpos, hfollows⟩ := h.prints text
  have hsize := T.sameSize_prints text
  have hle := (T.prints text).next_le
  rw [hsize.rows, hsize.cols] at hle
  rw [← hend] at hpos hfollows
  have htop := hfollows.top_eq hcol (by rw [Nat.add_mul top']; omega)
  rw [if_pos hbottom] at htop
  rw [← htop]
  refine hcovers.lineFeed_bottom (bottom_of_next _ ?_)
  rw [hsize.rows, hsize.cols]
  have hrows : top + row = top' + T.rows := by omega
  rw [hrows, hbottom.2, Nat.add_mul] at hpos
  omega

/-- Otherwise the cell behind the text is on the screen. -/
theorem Covers.prints_above {T : Terminal α} {sheet : Nat → α} {top : Nat} (h : T.Covers sheet top)
    {text : List α} {row col : Nat} (hcol : col < T.cols)
    (hend : (top + row) * T.cols + col = top * T.cols + T.next + text.length)
    (hbottom : ¬ (T.rows ≤ row ∧ col = 0)) :
    (T.prints text).Covers (overwrite sheet (top * T.cols + T.next) text)
        (top + (row + 1 - T.rows)) ∧
      (top + (row + 1 - T.rows)) * T.cols + (T.prints text).next =
        top * T.cols + T.next + text.length := by
  obtain ⟨top', hcovers, hpos, hfollows⟩ := h.prints text
  have hsize := T.sameSize_prints text
  have hle := (T.prints text).next_le
  rw [hsize.rows, hsize.cols] at hle
  rw [← hend] at hpos hfollows ⊢
  have htop := hfollows.top_eq hcol (by rw [Nat.add_mul top']; omega)
  rw [if_neg hbottom] at htop
  rw [← htop]
  exact ⟨hcovers, hpos⟩

/-- Blanks over the rest of the line before, which was on the screen. -/
theorem Covers.prints_blanks {T : Terminal α} {sheet : Nat → α} {top first : Nat} (h : T.Covers sheet top)
    (text old : List α) (hsheet : ∀ i, sheet (first + i) = (text[i]?).getD ((old[i]?).getD T.blank))
    (hnext : text.length < old.length → top * T.cols + T.next = first + text.length)
    (hroom : text.length < old.length → first + old.length < (top + T.rows) * T.cols) :
    ∃ sheet', (T.prints (List.replicate (old.length - text.length) T.blank)).Covers sheet' top ∧
      ∀ i, sheet' (first + i) = (text[i]?).getD T.blank := by
  by_cases hlt : text.length < old.length
  · obtain ⟨top', hcovers, hpos, hfollows⟩ := h.prints (List.replicate (old.length - text.length) T.blank)
    rw [hnext hlt] at hcovers hfollows
    have htop : top' = top := by
      refine Nat.le_antisymm (Nat.le_of_not_lt fun hmoved => ?_) hfollows.le
      have hleast := hfollows.least hmoved
      have hmul := Nat.mul_le_mul_right T.cols (show top + T.rows + 1 ≤ top' + T.rows by omega)
      rw [Nat.add_mul _ 1, List.length_replicate] at *
      have := hroom hlt
      omega
    subst htop
    refine ⟨_, hcovers, fun i => ?_⟩
    by_cases hi : text.length ≤ i
    · obtain ⟨j, rfl⟩ : ∃ j, i = text.length + j := ⟨i - text.length, by omega⟩
      rw [← Nat.add_assoc, overwrite_at, Nat.add_assoc, hsheet, List.getElem?_replicate,
        List.getElem?_eq_none (Nat.le_add_right _ _)]
      split
      · rfl
      · rw [List.getElem?_eq_none (by omega)]
        rfl
    · rw [overwrite_apply, if_neg (by omega), hsheet,
        List.getElem?_eq_getElem (Nat.lt_of_not_le hi)]
      rfl
  · rw [Nat.sub_eq_zero_of_le (Nat.le_of_not_lt hlt)]
    refine ⟨sheet, h, fun i => ?_⟩
    rw [hsheet]
    by_cases hi : i < text.length
    · rw [List.getElem?_eq_getElem hi]
      rfl
    · rw [List.getElem?_eq_none (Nat.le_of_not_lt hi), List.getElem?_eq_none (by omega)]
      rfl

/-- What is on the sheet is on the screen. -/
theorem Covers.holds {T : Terminal α} {sheet : Nat → α} {top : Nat} (h : T.Covers sheet top)
    {first : Nat} {text : List α} (htext : ∀ i, sheet (first + i) = (text[i]?).getD T.blank)
    {origin : Int} (horigin : origin = first - T.cols * top) : T.Holds origin text := by
  intro i p hp hlt
  have hq : top * T.cols + p = first + i := by
    have hproduct : (T.cols * top : Int) = (top * T.cols : Nat) := by
      push_cast
      exact Int.mul_comm _ _
    omega
  rw [h.cells p hlt, hq, htext]

end Terminal
