import Mathlib.Tactic.Common
import Mathlib.Tactic.Ring

/-!
# Nanorl.Lib.Words

Little-endian words of a fixed width, and arrays of them in a byte sequence.
-/

namespace Words

/-- The `w` bytes of `n`, lowest first; what does not fit is dropped. -/
def toBytes : Nat → Nat → List UInt8
  | 0, _ => []
  | w + 1, n => UInt8.ofNat (n % 256) :: toBytes w (n / 256)

/-- The number whose bytes these are. -/
def ofBytes : List UInt8 → Nat
  | [] => 0
  | b :: bs => b.toNat + 256 * ofBytes bs

/-- Words one after the other. -/
def encode (w : Nat) (ns : List Nat) : List UInt8 := ns.flatMap (toBytes w)

/-- The `k`-th word of an array, if all of its bytes are there. -/
def wordAt (w : Nat) (bytes : List UInt8) (k : Nat) : Option Nat :=
  if w * k + w ≤ bytes.length then some (ofBytes ((bytes.drop (w * k)).take w)) else none

@[simp] theorem length_toBytes (w n : Nat) : (toBytes w n).length = w := by
  induction w generalizing n with
  | zero => rfl
  | succ w ih => rw [toBytes, List.length_cons, ih]

theorem ofBytes_toBytes {w n : Nat} (h : n < 256 ^ w) : ofBytes (toBytes w n) = n := by
  induction w generalizing n with
  | zero =>
    rw [Nat.pow_zero, Nat.lt_one_iff] at h
    exact h.symm
  | succ w ih =>
    have hlow : (UInt8.ofNat (n % 256)).toNat = n % 256 := by
      rw [UInt8.toNat_ofNat']
      exact Nat.mod_eq_of_lt (Nat.mod_lt n (by decide))
    have hhigh : n / 256 < 256 ^ w := by
      rw [Nat.div_lt_iff_lt_mul (by decide), ← Nat.pow_succ]
      exact h
    rw [toBytes, ofBytes, hlow, ih hhigh, Nat.mod_add_div]

@[simp] theorem length_encode (w : Nat) (ns : List Nat) : (encode w ns).length = w * ns.length := by
  induction ns with
  | nil => rfl
  | cons n ns ih =>
    rw [encode, List.flatMap_cons, List.length_append, length_toBytes, ← encode, ih,
      List.length_cons]
    ring

/-- An array is read back word by word, whatever follows it. -/
theorem wordAt_encode {w k n : Nat} {ns : List Nat} (hn : ns[k]? = some n) (h : n < 256 ^ w)
    (rest : List UInt8) : wordAt w (encode w ns ++ rest) k = some n := by
  obtain ⟨hk, rfl⟩ := List.getElem?_eq_some_iff.mp hn
  have hsplit : encode w ns = encode w (ns.take k) ++ (toBytes w ns[k] ++ encode w (ns.drop (k + 1))) := by
    conv_lhs => rw [← List.take_append_drop k ns, List.drop_eq_getElem_cons hk]
    rw [encode, encode, encode, List.flatMap_append, List.flatMap_cons]
  have hlen : (encode w (ns.take k)).length = w * k := by
    rw [length_encode, List.length_take, Nat.min_eq_left (Nat.le_of_lt hk)]
  rw [wordAt, if_pos]
  · rw [hsplit, List.append_assoc, List.drop_left' hlen, List.append_assoc,
      List.take_left' (length_toBytes w _), ofBytes_toBytes h]
  · rw [List.length_append, length_encode, ← Nat.mul_succ]
    exact Nat.le_add_right_of_le (Nat.mul_le_mul_left w hk)

theorem wordAt_eq_none {w k : Nat} {bytes : List UInt8} :
    wordAt w bytes k = none ↔ bytes.length < w * k + w := by
  unfold wordAt
  split <;> simp <;> omega

end Words
