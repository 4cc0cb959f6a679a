import Mathlib.Tactic.Common

/-!
# Nanorl.Lib.Zipper

The **two-list line editor**: a text with a cursor in it, kept as the entries
before the cursor (nearest first) and the entries from the cursor on. Every
editing command is a list operation at the place where the two lists meet, so
no command needs an index or a bound.

`toList` and `cursor` give the one-list view of the same text; the lemmas below
say what each command does to that view, in terms of `take`, `drop` and
`eraseIdx`.
-/

/-- A text split at its cursor. -/
structure Zipper (α : Type*) where
  /-- The entries before the cursor, nearest first. -/
  left : List α
  /-- The entries from the cursor on. -/
  right : List α
  deriving Repr, DecidableEq

namespace Zipper

variable {α : Type*}

/-- The empty text. -/
def empty : Zipper α := ⟨[], []⟩

/-- The whole text. -/
def toList (z : Zipper α) : List α := z.left.reverse ++ z.right

/-- How many entries precede the cursor. -/
def cursor (z : Zipper α) : Nat := z.left.length

/-- Put `w` before the cursor. -/
def insert (z : Zipper α) (w : List α) : Zipper α := ⟨w.reverse ++ z.left, z.right⟩

/-- Step over one entry to the left. -/
def moveLeft : Zipper α → Zipper α
  | ⟨c :: l, r⟩ => ⟨l, c :: r⟩
  | z => z

/-- Step over one entry to the right. -/
def moveRight : Zipper α → Zipper α
  | ⟨l, c :: r⟩ => ⟨c :: l, r⟩
  | z => z

/-- Remove the entry under the cursor. -/
def delete : Zipper α → Zipper α
  | ⟨l, _ :: r⟩ => ⟨l, r⟩
  | z => z

/-- Remove the entry before the cursor. -/
def backspace : Zipper α → Zipper α
  | ⟨_ :: l, r⟩ => ⟨l, r⟩
  | z => z

/-- Move before the first entry. -/
def home (z : Zipper α) : Zipper α := ⟨[], z.toList⟩

/-- Move behind the last entry. -/
def toEnd (z : Zipper α) : Zipper α := ⟨z.toList.reverse, []⟩

/-- The text `l` with the cursor before its entry `n`. -/
def ofList (l : List α) (n : Nat) : Zipper α := ⟨(l.take n).reverse, l.drop n⟩

/-! ### The one-list view -/

@[simp] theorem toList_ofList (l : List α) (n : Nat) : (ofList l n).toList = l := by
  simp [ofList, toList]

theorem cursor_ofList {l : List α} {n : Nat} (h : n ≤ l.length) : (ofList l n).cursor = n := by
  simp [ofList, cursor, h]

theorem cursor_le_length (z : Zipper α) : z.cursor ≤ z.toList.length := by
  simp [cursor, toList]

theorem take_cursor (z : Zipper α) : z.toList.take z.cursor = z.left.reverse := by
  simp [cursor, toList]

theorem drop_cursor (z : Zipper α) : z.toList.drop z.cursor = z.right := by
  simp [cursor, toList]

theorem toList_insert (z : Zipper α) (w : List α) :
    (z.insert w).toList = z.toList.take z.cursor ++ w ++ z.toList.drop z.cursor := by
  rw [take_cursor, drop_cursor]
  simp [insert, toList]

@[simp] theorem cursor_insert (z : Zipper α) (w : List α) :
    (z.insert w).cursor = z.cursor + w.length := by
  simp [insert, cursor, Nat.add_comm]

theorem insert_insert (z : Zipper α) (v w : List α) : (z.insert v).insert w = z.insert (v ++ w) := by
  simp [insert]

@[simp] theorem toList_moveLeft (z : Zipper α) : z.moveLeft.toList = z.toList := by
  obtain ⟨l, r⟩ := z
  cases l <;> simp [moveLeft, toList]

@[simp] theorem cursor_moveLeft (z : Zipper α) : z.moveLeft.cursor = z.cursor - 1 := by
  obtain ⟨l, r⟩ := z
  cases l <;> simp [moveLeft, cursor]

@[simp] theorem toList_moveRight (z : Zipper α) : z.moveRight.toList = z.toList := by
  obtain ⟨l, r⟩ := z
  cases r <;> simp [moveRight, toList]

theorem cursor_moveRight (z : Zipper α) :
    z.moveRight.cursor = if z.cursor < z.toList.length then z.cursor + 1 else z.cursor := by
  obtain ⟨l, r⟩ := z
  cases r <;> simp [moveRight, cursor, toList]

theorem toList_delete (z : Zipper α) : z.delete.toList = z.toList.eraseIdx z.cursor := by
  obtain ⟨l, r⟩ := z
  cases r with
  | nil => simp [delete, toList, cursor, List.eraseIdx_of_length_le]
  | cons c r => simp [delete, toList, cursor, List.eraseIdx_append_of_length_le]

@[simp] theorem cursor_delete (z : Zipper α) : z.delete.cursor = z.cursor := by
  obtain ⟨l, r⟩ := z
  cases r <;> rfl

/-- Backspace is a step to the left followed by a deletion, wherever there is an
entry to step over. -/
theorem backspace_eq {z : Zipper α} (h : 0 < z.cursor) :
    z.backspace = z.moveLeft.delete := by
  obtain ⟨l, r⟩ := z
  cases l with
  | nil => simp [cursor] at h
  | cons c l => rfl

theorem backspace_of_cursor_eq_zero {z : Zipper α} (h : z.cursor = 0) :
    z.backspace = z := by
  obtain ⟨l, r⟩ := z
  cases l with
  | nil => rfl
  | cons c l => simp [cursor] at h

@[simp] theorem toList_home (z : Zipper α) : z.home.toList = z.toList := by
  simp [home, toList]

@[simp] theorem cursor_home (z : Zipper α) : z.home.cursor = 0 := rfl

@[simp] theorem toList_toEnd (z : Zipper α) : z.toEnd.toList = z.toList := by
  simp [toEnd, toList]

@[simp] theorem cursor_toEnd (z : Zipper α) : z.toEnd.cursor = z.toList.length := by
  simp [toEnd, cursor]

/-! ### Entries -/

theorem mem_insert {z : Zipper α} {w : List α} {c : α} :
    c ∈ (z.insert w).toList ↔ c ∈ w ∨ c ∈ z.toList := by
  simp only [insert, toList, List.mem_append, List.mem_reverse]
  tauto

theorem mem_of_mem_delete {z : Zipper α} {c : α} (h : c ∈ z.delete.toList) : c ∈ z.toList := by
  rw [toList_delete] at h
  exact List.mem_of_mem_eraseIdx h

theorem mem_of_mem_backspace {z : Zipper α} {c : α} (h : c ∈ z.backspace.toList) : c ∈ z.toList := by
  rcases Nat.eq_zero_or_pos z.cursor with hzero | hpos
  · rwa [backspace_of_cursor_eq_zero hzero] at h
  · rw [backspace_eq hpos] at h
    exact z.toList_moveLeft ▸ mem_of_mem_delete h

end Zipper
