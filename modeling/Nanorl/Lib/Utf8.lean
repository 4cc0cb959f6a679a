import Mathlib.Algebra.Group.Nat.Defs
import Mathlib.Tactic.Common

/-!
# Nanorl.Lib.Utf8

**UTF-8 at the head of a byte string.** `String.utf8EncodeChar` gives the encoding
of a scalar value; here are the other direction and what a reader of bytes needs of
the two:

* `size b`: how many bytes a lead byte announces (1 for what is no lead byte).
* `parse bytes`: the bytes consumed, 0 on malformed input, and the code point.
* `decode bytes`: a whole string, with U+FFFD for what is malformed, and whether
  there was any of it.

`parse_encode` and `encode_of_parse` are the round trips, `parse_consumes` is the size of
what is taken,
`ge_of_mem_encode` keeps the codes of control characters out of the encodings of
other characters, and `decode_append` cuts a byte string behind well-formed text.
A text is decoded from its encoding (`decode_encode`); a character cut short is
malformed in each of its bytes (`decode_cut`).
-/

namespace Utf8

/-- The bytes of a character that starts with `b`. -/
def size (b : UInt8) : Nat :=
  if b.toNat < 0xc2 then 1
  else if b.toNat < 0xe0 then 2
  else if b.toNat < 0xf0 then 3
  else if b.toNat < 0xf5 then 4
  else 1

/-- The six bits of a continuation byte. -/
def continuation (b : UInt8) : Option Nat :=
  if 0x80 ≤ b.toNat ∧ b.toNat < 0xc0 then some (b.toNat - 0x80) else none

/-- A code point read in `bytes` bytes, if it needs them all and is no surrogate. -/
def accept (bytes n : Nat) : Nat × UInt32 :=
  if (bytes = 1 → n < 0x80) ∧ (bytes = 3 → 0x800 ≤ n ∧ (n < 0xd800 ∨ 0xe000 ≤ n)) ∧
      (bytes = 4 → 0x10000 ≤ n ∧ n < 0x110000) then (bytes, UInt32.ofNat n)
  else (0, 0)

/-- The bits of the continuation bytes `bytes` starts with, at most `count`. -/
def joinBytes : Nat → Nat → List UInt8 → Option Nat
  | 0, n, _ => some n
  | _ + 1, _, [] => none
  | count + 1, n, byte :: bytes =>
    match continuation byte with
    | some x => joinBytes count (n * 64 + x) bytes
    | none => none

/-- The value of the bits a lead byte of `n` bytes contributes. -/
def leadBits (n : Nat) (lead : UInt8) : Nat :=
  lead.toNat - (if n = 1 then 0 else if n = 2 then 0xc0 else if n = 3 then 0xe0 else 0xf0)

/-- The character at the head of a byte string. -/
def parse : List UInt8 → Nat × UInt32
  | [] => (0, 0)
  | lead :: bytes =>
    match joinBytes (size lead - 1) (leadBits (size lead) lead) bytes with
    | some n => accept (size lead) n
    | none => (0, 0)

/-- At most `fuel` characters of a byte string. -/
def decodeFuel : Nat → List UInt8 → List UInt32 × Bool
  | 0, _ => ([], false)
  | _, [] => ([], false)
  | fuel + 1, byte :: bytes =>
    match parse (byte :: bytes) with
    | (0, _) => (0xfffd :: (decodeFuel fuel bytes).1, true)
    | (consumed + 1, uc) =>
      (uc :: (decodeFuel fuel (bytes.drop consumed)).1, (decodeFuel fuel (bytes.drop consumed)).2)

/-- The text of a byte string, and whether it was malformed. -/
def decode (bytes : List UInt8) : List UInt32 × Bool := decodeFuel bytes.length bytes

theorem accept_consumes (bytes n : Nat) : (accept bytes n).1 = 0 ∨ (accept bytes n).1 = bytes := by
  unfold accept
  split
  · exact Or.inr rfl
  · exact Or.inl rfl

/-- What is consumed is nothing or what the lead byte announces. -/
theorem parse_consumes (lead : UInt8) (bytes : List UInt8) :
    (parse (lead :: bytes)).1 = 0 ∨ (parse (lead :: bytes)).1 = size lead := by
  rw [parse]
  split
  · exact accept_consumes _ _
  · exact Or.inl rfl

theorem toNat_ofNat {n : Nat} (h : n < 256) : (UInt8.ofNat n).toNat = n := by
  rw [UInt8.toNat_ofNat']
  exact Nat.mod_eq_of_lt h

theorem continuation_ofNat (n : Nat) : continuation (UInt8.ofNat (n % 64 + 128)) = some (n % 64) := by
  have hlt : n % 64 < 64 := Nat.mod_lt n (by omega)
  rw [continuation, toNat_ofNat (by omega), if_pos (by omega), Nat.add_sub_cancel]

theorem char_lt (c : Char) :
    c.val.toNat < 0xd800 ∨ 0xdfff < c.val.toNat ∧ c.val.toNat < 0x110000 := by
  rcases c.valid with h | h
  · exact Or.inl h
  · exact Or.inr h

/-- The encoding of a character, by its size. -/
theorem encode_cases (c : Char) :
    (c.val.toNat < 0x80 ∧ c.utf8Size = 1 ∧
      String.utf8EncodeChar c = [UInt8.ofNat c.val.toNat]) ∨
    (0x80 ≤ c.val.toNat ∧ c.val.toNat < 0x800 ∧ c.utf8Size = 2 ∧
      String.utf8EncodeChar c = [UInt8.ofNat (c.val.toNat / 64 % 0x20 + 0xc0),
        UInt8.ofNat (c.val.toNat % 0x40 + 0x80)]) ∨
    (0x800 ≤ c.val.toNat ∧ c.val.toNat < 0x10000 ∧ c.utf8Size = 3 ∧
      String.utf8EncodeChar c = [UInt8.ofNat (c.val.toNat / 4096 % 0x10 + 0xe0),
        UInt8.ofNat (c.val.toNat / 64 % 0x40 + 0x80), UInt8.ofNat (c.val.toNat % 0x40 + 0x80)]) ∨
    (0x10000 ≤ c.val.toNat ∧ c.val.toNat < 0x110000 ∧ c.utf8Size = 4 ∧
      String.utf8EncodeChar c = [UInt8.ofNat (c.val.toNat / 262144 % 0x08 + 0xf0),
        UInt8.ofNat (c.val.toNat / 4096 % 0x40 + 0x80),
        UInt8.ofNat (c.val.toNat / 64 % 0x40 + 0x80), UInt8.ofNat (c.val.toNat % 0x40 + 0x80)]) := by
  have hvalid := char_lt c
  have hsize : c.utf8Size = (String.utf8EncodeChar c).length :=
    (String.length_utf8EncodeChar c).symm
  rw [hsize, String.utf8EncodeChar]
  by_cases h1 : c.val.toNat ≤ 0x7f
  · rw [if_pos h1]
    exact Or.inl ⟨by omega, rfl, rfl⟩
  · rw [if_neg h1]
    by_cases h2 : c.val.toNat ≤ 0x7ff
    · rw [if_pos h2]
      exact Or.inr (Or.inl ⟨by omega, by omega, rfl, rfl⟩)
    · rw [if_neg h2]
      by_cases h3 : c.val.toNat ≤ 0xffff
      · rw [if_pos h3]
        exact Or.inr (Or.inr (Or.inl ⟨by omega, by omega, rfl, rfl⟩))
      · rw [if_neg h3]
        exact Or.inr (Or.inr (Or.inr ⟨by omega, by omega, rfl, rfl⟩))

theorem accept_of {bytes n : Nat} (h1 : bytes = 1 → n < 0x80)
    (h3 : bytes = 3 → 0x800 ≤ n ∧ (n < 0xd800 ∨ 0xe000 ≤ n))
    (h4 : bytes = 4 → 0x10000 ≤ n ∧ n < 0x110000) : accept bytes n = (bytes, UInt32.ofNat n) :=
  if_pos ⟨h1, h3, h4⟩

/-- A continuation byte appends its six bits. -/
theorem joinBytes_ofNat (count m n : Nat) (bytes : List UInt8) :
    joinBytes (count + 1) m (UInt8.ofNat (n % 64 + 128) :: bytes) =
      joinBytes count (m * 64 + n % 64) bytes := by
  rw [joinBytes, continuation_ofNat]

theorem size_one {n : Nat} (h : n < 0x80) : size (UInt8.ofNat n) = 1 := by
  rw [size, toNat_ofNat (by omega), if_pos (by omega)]

theorem size_two {n : Nat} (hl : 0xc2 ≤ n) (h : n < 0xe0) : size (UInt8.ofNat n) = 2 := by
  rw [size, toNat_ofNat (by omega), if_neg (by omega), if_pos h]

theorem size_three {n : Nat} (hl : 0xe0 ≤ n) (h : n < 0xf0) : size (UInt8.ofNat n) = 3 := by
  rw [size, toNat_ofNat (by omega), if_neg (by omega), if_neg (by omega), if_pos h]

theorem size_four {n : Nat} (hl : 0xf0 ≤ n) (h : n < 0xf5) : size (UInt8.ofNat n) = 4 := by
  rw [size, toNat_ofNat (by omega), if_neg (by omega), if_neg (by omega), if_neg (by omega), if_pos h]

/-- A character is read back from its encoding, whatever follows it. -/
theorem parse_encode (c : Char) (rest : List UInt8) :
    parse (String.utf8EncodeChar c ++ rest) = (c.utf8Size, c.val) := by
  have hvalid := char_lt c
  have hval : UInt32.ofNat c.val.toNat = c.val := UInt32.ofNat_toNat
  rcases encode_cases c with ⟨h, hs, he⟩ | ⟨hl, h, hs, he⟩ | ⟨hl, h, hs, he⟩ | ⟨hl, h, hs, he⟩
  · have hbits : leadBits 1 (UInt8.ofNat c.val.toNat) = c.val.toNat := toNat_ofNat (by omega)
    rw [he, hs, List.singleton_append, parse, size_one h, hbits, joinBytes]
    exact (accept_of (fun _ => h) (by simp) (by simp)).trans (by rw [hval])
  · have hbits : leadBits 2 (UInt8.ofNat (c.val.toNat / 64 % 0x20 + 0xc0)) = c.val.toNat / 64 % 32 := by
      rw [leadBits, toNat_ofNat (by omega)]
      exact Nat.add_sub_cancel _ _
    have hjoin : c.val.toNat / 64 % 32 * 64 + c.val.toNat % 64 = c.val.toNat := by omega
    rw [he, hs, List.cons_append, parse, size_two (by omega) (by omega), hbits, List.cons_append,
      joinBytes_ofNat, joinBytes, hjoin]
    exact (accept_of (by simp) (by simp) (by simp)).trans (by rw [hval])
  · have hbits : leadBits 3 (UInt8.ofNat (c.val.toNat / 4096 % 0x10 + 0xe0)) =
        c.val.toNat / 4096 % 16 := by
      rw [leadBits, toNat_ofNat (by omega)]
      exact Nat.add_sub_cancel _ _
    have hjoin : (c.val.toNat / 4096 % 16 * 64 + c.val.toNat / 64 % 64) * 64 + c.val.toNat % 64 =
        c.val.toNat := by omega
    rw [he, hs, List.cons_append, parse, size_three (by omega) (by omega), hbits, List.cons_append,
      joinBytes_ofNat, List.cons_append, joinBytes_ofNat, joinBytes, hjoin]
    exact (accept_of (by simp) (fun _ => ⟨hl, by omega⟩) (by simp)).trans (by rw [hval])
  · have hbits : leadBits 4 (UInt8.ofNat (c.val.toNat / 262144 % 0x08 + 0xf0)) =
        c.val.toNat / 262144 % 8 := by
      rw [leadBits, toNat_ofNat (by omega)]
      exact Nat.add_sub_cancel _ _
    have hjoin : ((c.val.toNat / 262144 % 8 * 64 + c.val.toNat / 4096 % 64) * 64 +
        c.val.toNat / 64 % 64) * 64 + c.val.toNat % 64 = c.val.toNat := by omega
    rw [he, hs, List.cons_append, parse, size_four (by omega) (by omega), hbits, List.cons_append,
      joinBytes_ofNat, List.cons_append, joinBytes_ofNat, List.cons_append, joinBytes_ofNat,
      joinBytes, hjoin]
    exact (accept_of (by simp) (by simp) (fun _ => ⟨hl, h⟩)).trans (by rw [hval])

/-- A lead byte announces the size of its character. -/
theorem size_encode (c : Char) :
    ∃ lead bytes, String.utf8EncodeChar c = lead :: bytes ∧ size lead = c.utf8Size := by
  have hvalid := char_lt c
  rcases encode_cases c with ⟨h, hs, he⟩ | ⟨hl, h, hs, he⟩ | ⟨hl, h, hs, he⟩ | ⟨hl, h, hs, he⟩
  · exact ⟨_, _, he, by rw [hs, size_one h]⟩
  · exact ⟨_, _, he, by rw [hs, size_two (by omega) (by omega)]⟩
  · exact ⟨_, _, he, by rw [hs, size_three (by omega) (by omega)]⟩
  · exact ⟨_, _, he, by rw [hs, size_four (by omega) (by omega)]⟩

theorem ge_of_eq_ofNat {b : UInt8} {n : Nat} (hb : b = UInt8.ofNat n) (hl : 0x80 ≤ n)
    (h : n < 256) : 0x20 ≤ b.toNat ∧ b.toNat ≠ 0x7f := by
  rw [hb, toNat_ofNat h]
  omega

/-- No byte of a printable character is the code of a control character. -/
theorem ge_of_mem_encode {c : Char} (hc : 0x20 ≤ c.val.toNat) (hdel : c.val.toNat ≠ 0x7f) {b : UInt8}
    (hb : b ∈ String.utf8EncodeChar c) : 0x20 ≤ b.toNat ∧ b.toNat ≠ 0x7f := by
  rcases encode_cases c with ⟨h, -, he⟩ | ⟨hl, h, -, he⟩ | ⟨hl, h, -, he⟩ | ⟨hl, h, -, he⟩
  · rw [he, List.mem_singleton] at hb
    rw [hb, toNat_ofNat (by omega)]
    exact ⟨hc, hdel⟩
  all_goals
    rw [he] at hb
    simp only [List.mem_cons, List.not_mem_nil, or_false] at hb
  · rcases hb with hb | hb <;> exact ge_of_eq_ofNat hb (by omega) (by omega)
  · rcases hb with hb | hb | hb <;> exact ge_of_eq_ofNat hb (by omega) (by omega)
  · rcases hb with hb | hb | hb | hb <;> exact ge_of_eq_ofNat hb (by omega) (by omega)

/-- Only the terminator has a zero in its encoding. -/
theorem zero_notMem_encode {c : Char} (hc : c ≠ Char.ofNat 0) : 0 ∉ String.utf8EncodeChar c := by
  have hval : 0 < c.val.toNat := by
    rcases Nat.eq_zero_or_pos c.val.toNat with hzero | hpos
    · exact absurd (Char.ext (UInt32.toNat_inj.mp hzero)) hc
    · exact hpos
  have hge : ∀ {n}, (0 : UInt8) = UInt8.ofNat n → 0 < n → n < 256 → False := by
    intro n heq hpos hlt
    have hzero := congrArg UInt8.toNat heq
    rw [toNat_ofNat hlt] at hzero
    exact absurd hzero (Nat.ne_of_lt hpos)
  intro hb
  rcases encode_cases c with ⟨h, -, he⟩ | ⟨hl, h, -, he⟩ | ⟨hl, h, -, he⟩ | ⟨hl, h, -, he⟩
  all_goals
    rw [he] at hb
    simp only [List.mem_cons, List.not_mem_nil, or_false] at hb
  · exact hge hb hval (by omega)
  · rcases hb with hb | hb <;> exact hge hb (by omega) (by omega)
  · rcases hb with hb | hb | hb <;> exact hge hb (by omega) (by omega)
  · rcases hb with hb | hb | hb | hb <;> exact hge hb (by omega) (by omega)

/-! ### Concatenation -/

theorem joinBytes_append {count n m : Nat} {bytes : List UInt8}
    (h : joinBytes count n bytes = some m) :
    count ≤ bytes.length ∧ ∀ rest, joinBytes count n (bytes ++ rest) = some m := by
  induction count generalizing n bytes with
  | zero => exact ⟨Nat.zero_le _, fun rest => h⟩
  | succ count ih =>
    cases bytes with
    | nil => simp [joinBytes] at h
    | cons byte bytes =>
      rw [joinBytes] at h
      cases hc : continuation byte with
      | none => simp [hc] at h
      | some x =>
        rw [hc] at h
        obtain ⟨hle, hrest⟩ := ih h
        refine ⟨Nat.succ_le_succ hle, fun rest => ?_⟩
        rw [List.cons_append, joinBytes, hc]
        exact hrest rest

/-- The bytes of a character behind its lead byte are no zeros. -/
theorem joinBytes_ne_zero {n m : Nat} {bytes rest : List UInt8}
    (h : joinBytes bytes.length n (bytes ++ rest) = some m) : 0 ∉ bytes := by
  induction bytes generalizing n with
  | nil => simp
  | cons byte bytes ih =>
    rw [List.length_cons, List.cons_append, joinBytes] at h
    cases hc : continuation byte with
    | none => simp [hc] at h
    | some x =>
      rw [hc] at h
      intro hmem
      rcases List.mem_cons.mp hmem with rfl | hmem
      · simp [continuation] at hc
      · exact ih h hmem

/-- A well-formed character is not looked beyond. -/
theorem parse_append {bytes : List UInt8} {k : Nat} {uc : UInt32} (h : parse bytes = (k + 1, uc)) :
    k + 1 ≤ bytes.length ∧ ∀ rest, parse (bytes ++ rest) = (k + 1, uc) := by
  cases bytes with
  | nil => simp [parse] at h
  | cons lead bytes =>
    rw [parse] at h
    cases hj : joinBytes (size lead - 1) (leadBits (size lead) lead) bytes with
    | none => simp [hj] at h
    | some n =>
      rw [hj] at h
      obtain ⟨hle, hrest⟩ := joinBytes_append hj
      have hsize : k + 1 = size lead := by
        rcases accept_consumes (size lead) n with h0 | hs
        · rw [show accept (size lead) n = (k + 1, uc) from h] at h0
          cases h0
        · rw [show accept (size lead) n = (k + 1, uc) from h] at hs
          exact hs
      refine ⟨?_, fun rest => ?_⟩
      · rw [List.length_cons]
        omega
      · rw [List.cons_append, parse, hrest]
        exact h

/-- More rounds than bytes change nothing. -/
theorem decodeFuel_eq {n fuel : Nat} {bytes : List UInt8} (hn : bytes.length ≤ n)
    (hfuel : bytes.length ≤ fuel) : decodeFuel n bytes = decodeFuel fuel bytes := by
  induction n generalizing fuel bytes with
  | zero =>
    obtain rfl := List.length_eq_zero_iff.mp (Nat.le_zero.mp hn)
    cases fuel <;> rfl
  | succ n ih =>
    cases bytes with
    | nil => cases fuel <;> rfl
    | cons byte bytes =>
      rw [List.length_cons] at hn hfuel
      obtain ⟨fuel, rfl⟩ : ∃ m, fuel = m + 1 := ⟨fuel - 1, by omega⟩
      have hdrop : ∀ k, decodeFuel n (bytes.drop k) = decodeFuel fuel (bytes.drop k) := fun k =>
        ih (by rw [List.length_drop]; omega) (by rw [List.length_drop]; omega)
      rw [decodeFuel, decodeFuel]
      rcases parse (byte :: bytes) with ⟨_ | k, uc⟩
      · exact congrArg (fun r => (0xfffd :: r.1, true)) (hdrop 0)
      · exact congrArg (fun r => (uc :: r.1, r.2)) (hdrop k)

theorem decode_cons (byte : UInt8) (bytes : List UInt8) :
    decode (byte :: bytes) =
      match parse (byte :: bytes) with
      | (0, _) => (0xfffd :: (decode bytes).1, true)
      | (consumed + 1, uc) =>
        (uc :: (decode (bytes.drop consumed)).1, (decode (bytes.drop consumed)).2) := by
  have hdrop : ∀ k, decodeFuel bytes.length (bytes.drop k) = decode (bytes.drop k) := fun k =>
    decodeFuel_eq (by rw [List.length_drop]; omega) (Nat.le_refl _)
  rw [decode, List.length_cons, decodeFuel]
  rcases parse (byte :: bytes) with ⟨_ | k, uc⟩
  · rfl
  · exact congrArg (fun r => (uc :: r.1, r.2)) (hdrop k)

/-- A well-formed beginning is decoded on its own. -/
theorem decode_append {bytes : List UInt8} (h : (decode bytes).2 = false) (rest : List UInt8) :
    decode (bytes ++ rest) = ((decode bytes).1 ++ (decode rest).1, (decode rest).2) := by
  induction hn : bytes.length using Nat.strongRecOn generalizing bytes with
  | _ n ih =>
    cases bytes with
    | nil => rfl
    | cons byte bytes =>
      rw [List.length_cons] at hn
      rw [decode_cons] at h ⊢
      rcases hparse : parse (byte :: bytes) with ⟨_ | k, uc⟩
      · simp [hparse] at h
      · rw [hparse] at h
        obtain ⟨hle, happend⟩ := parse_append hparse
        rw [List.length_cons] at hle
        rw [List.cons_append, decode_cons, ← List.cons_append, happend rest]
        dsimp only
        have hshorter : (bytes.drop k).length < n := by
          rw [List.length_drop]
          omega
        rw [List.drop_append_of_le_length (by omega), ih (bytes.drop k).length hshorter h rfl]
        rfl

/-! ### Texts -/

theorem decode_char (c : Char) : decode (String.utf8EncodeChar c) = ([c.val], false) := by
  obtain ⟨lead, bytes, he, -⟩ := size_encode c
  have hparse := parse_encode c []
  have hsize := String.length_utf8EncodeChar c
  rw [List.append_nil, he] at hparse
  rw [he, List.length_cons] at hsize
  rw [he, decode_cons, hparse, ← hsize]
  dsimp only
  rw [List.drop_length]
  rfl

/-- A text is decoded from its encoding. -/
theorem decode_encode (text : List Char) :
    decode (text.flatMap String.utf8EncodeChar) = (text.map Char.val, false) := by
  induction text with
  | nil => rfl
  | cons c text ih =>
    have hflag : (decode (String.utf8EncodeChar c)).2 = false := by rw [decode_char]
    rw [List.flatMap_cons, decode_append hflag, decode_char, ih]
    rfl

/-- Continuation bytes on their own are malformed, each of them. -/
theorem decode_continuations {bytes : List UInt8}
    (h : ∀ b ∈ bytes, 0x80 ≤ b.toNat ∧ b.toNat < 0xc0) (hne : bytes ≠ []) :
    decode bytes = (List.replicate bytes.length 0xfffd, true) := by
  induction bytes with
  | nil => exact absurd rfl hne
  | cons byte bytes ih =>
    obtain ⟨hbyte, hbytes⟩ := List.forall_mem_cons.mp h
    have hsize : size byte = 1 := by rw [size, if_pos (by omega)]
    have hparse : parse (byte :: bytes) = accept 1 byte.toNat := by
      rw [parse, hsize]
      rfl
    rw [accept, if_neg (by omega)] at hparse
    rw [decode_cons, hparse, List.length_cons, List.replicate_succ]
    cases bytes with
    | nil => rfl
    | cons byte' bytes => rw [ih hbytes (List.cons_ne_nil _ _)]

/-- The bytes of a character behind its lead byte. -/
theorem encode_tail (c : Char) : ∀ b ∈ (String.utf8EncodeChar c).tail,
    0x80 ≤ b.toNat ∧ b.toNat < 0xc0 := by
  have hb : ∀ n, 0x80 ≤ (UInt8.ofNat (n % 0x40 + 0x80)).toNat ∧
      (UInt8.ofNat (n % 0x40 + 0x80)).toNat < 0xc0 := by
    intro n
    rw [toNat_ofNat (by omega)]
    omega
  rcases encode_cases c with ⟨-, -, he⟩ | ⟨-, -, -, he⟩ | ⟨-, -, -, he⟩ | ⟨-, -, -, he⟩ <;>
    rw [he] <;> simp only [List.tail_cons, List.forall_mem_cons, List.not_mem_nil, false_implies,
      implies_true, and_true, hb]

/-- A character whose end is missing is malformed, byte by byte. -/
theorem decode_cut (c : Char) {j : Nat} (hj : 0 < j) (hlt : j < c.utf8Size) :
    decode ((String.utf8EncodeChar c).take j) = (List.replicate j 0xfffd, true) := by
  obtain ⟨lead, bytes, he, hsize⟩ := size_encode c
  have htail := encode_tail c
  have hlength := String.length_utf8EncodeChar c
  rw [he, List.tail_cons] at htail
  rw [he, List.length_cons] at hlength
  obtain ⟨j, rfl⟩ : ∃ i, j = i + 1 := ⟨j - 1, by omega⟩
  have hparse : parse (lead :: bytes.take j) = (0, 0) := by
    rw [parse, hsize]
    cases hjoin : joinBytes (c.utf8Size - 1) (leadBits c.utf8Size lead) (bytes.take j) with
    | none => rfl
    | some n =>
      have hle := (joinBytes_append hjoin).1
      rw [List.length_take] at hle
      omega
  have htake : (bytes.take j).length = j := List.length_take_of_le (by omega)
  rw [he, List.take_succ_cons, decode_cons, hparse, List.replicate_succ]
  dsimp only
  cases j with
  | zero => rfl
  | succ j =>
    rw [decode_continuations (fun b hb => htail b (List.mem_of_mem_take hb))
      (List.ne_nil_of_length_pos (by omega)), htake]

/-! ### What is accepted -/

theorem joinBytes_succ {count n m : Nat} {bytes : List UInt8}
    (h : joinBytes (count + 1) n bytes = some m) : ∃ byte rest, bytes = byte :: rest ∧
      0x80 ≤ byte.toNat ∧ byte.toNat < 0xc0 ∧
      joinBytes count (n * 64 + (byte.toNat - 0x80)) rest = some m := by
  cases bytes with
  | nil => cases h
  | cons byte rest =>
    rw [joinBytes, continuation] at h
    by_cases hbyte : 0x80 ≤ byte.toNat ∧ byte.toNat < 0xc0
    · rw [if_pos hbyte] at h
      exact ⟨byte, rest, rfl, hbyte.1, hbyte.2, h⟩
    · rw [if_neg hbyte] at h
      cases h

theorem ofNat_eq {b : UInt8} {n : Nat} (h : n = b.toNat) : UInt8.ofNat n = b :=
  h ▸ UInt8.ofNat_toNat

theorem char_of_lt (n : Nat) (h : n < 0xd800 ∨ 0xdfff < n ∧ n < 0x110000) :
    ∃ c : Char, c.val = UInt32.ofNat n ∧ c.val.toNat = n := by
  have hval : (UInt32.ofNat n).toNat = n := UInt32.toNat_ofNat_of_lt' (by show n < 2 ^ 32; omega)
  refine ⟨⟨UInt32.ofNat n, ?_⟩, rfl, hval⟩
  show (UInt32.ofNat n).toNat.isValidChar
  rwa [hval]

/-- The range of a lead byte, by what it announces. -/
theorem size_bounds (lead : UInt8) : size lead = 1 ∨
    (size lead = 2 ∧ 0xc2 ≤ lead.toNat ∧ lead.toNat < 0xe0) ∨
    (size lead = 3 ∧ 0xe0 ≤ lead.toNat ∧ lead.toNat < 0xf0) ∨
    (size lead = 4 ∧ 0xf0 ≤ lead.toNat ∧ lead.toNat < 0xf5) := by
  unfold size
  grind

/-- What is accepted is the encoding of a character. -/
theorem encode_of_parse {lead : UInt8} {bytes : List UInt8} {k : Nat} {uc : UInt32}
    (h : parse (lead :: bytes) = (k + 1, uc)) :
    ∃ c : Char, c.val = uc ∧ String.utf8EncodeChar c = lead :: bytes.take k := by
  rw [parse] at h
  cases hjoin : joinBytes (size lead - 1) (leadBits (size lead) lead) bytes with
  | none => simp [hjoin] at h
  | some n =>
    rw [hjoin] at h
    change accept (size lead) n = (k + 1, uc) at h
    unfold accept at h
    split at h
    · rename_i haccept
      obtain ⟨hsize, rfl⟩ := Prod.mk.inj h
      -- the bits of each byte are those of the encoding
      rcases size_bounds lead with hs | ⟨hs, hge, hlt⟩ | ⟨hs, hge, hlt⟩ | ⟨hs, hge, hlt⟩ <;>
        rw [hs] at hjoin haccept hsize <;> simp [leadBits] at hjoin haccept
      · obtain rfl : k = 0 := by omega
        obtain rfl : lead.toNat = n := by simpa [joinBytes] using hjoin
        obtain ⟨c, hval, hnat⟩ := char_of_lt lead.toNat (by omega)
        refine ⟨c, hval, ?_⟩
        rcases encode_cases c with ⟨-, -, he⟩ | ⟨hl, -⟩ | ⟨hl, -⟩ | ⟨hl, -⟩
        · rw [he, ofNat_eq hnat, List.take_zero]
        all_goals omega
      · obtain rfl : k = 1 := by omega
        obtain ⟨b₁, rest, rfl, hl₁, hu₁, hjoin⟩ := joinBytes_succ hjoin
        have hn : (lead.toNat - 0xc0) * 64 + (b₁.toNat - 0x80) = n := by simpa [joinBytes] using hjoin
        obtain ⟨c, hval, hnat⟩ := char_of_lt n (by omega)
        refine ⟨c, hval, ?_⟩
        rcases encode_cases c with ⟨hl, -⟩ | ⟨-, -, -, he⟩ | ⟨hl, -⟩ | ⟨hl, -⟩
        · omega
        · rw [he, ofNat_eq (b := lead) (by omega), ofNat_eq (b := b₁) (by omega)]
          rfl
        all_goals omega
      · obtain rfl : k = 2 := by omega
        obtain ⟨b₁, rest, rfl, hl₁, hu₁, hjoin⟩ := joinBytes_succ hjoin
        obtain ⟨b₂, rest, rfl, hl₂, hu₂, hjoin⟩ := joinBytes_succ hjoin
        have hn : ((lead.toNat - 0xe0) * 64 + (b₁.toNat - 0x80)) * 64 + (b₂.toNat - 0x80) = n := by
          simpa [joinBytes] using hjoin
        obtain ⟨c, hval, hnat⟩ := char_of_lt n (by omega)
        refine ⟨c, hval, ?_⟩
        rcases encode_cases c with ⟨hl, -⟩ | ⟨-, hl, -⟩ | ⟨-, -, -, he⟩ | ⟨hl, -⟩
        · omega
        · omega
        · rw [he, ofNat_eq (b := lead) (by omega), ofNat_eq (b := b₁) (by omega),
            ofNat_eq (b := b₂) (by omega)]
          rfl
        · omega
      · obtain rfl : k = 3 := by omega
        obtain ⟨b₁, rest, rfl, hl₁, hu₁, hjoin⟩ := joinBytes_succ hjoin
        obtain ⟨b₂, rest, rfl, hl₂, hu₂, hjoin⟩ := joinBytes_succ hjoin
        obtain ⟨b₃, rest, rfl, hl₃, hu₃, hjoin⟩ := joinBytes_succ hjoin
        have hn : (((lead.toNat - 0xf0) * 64 + (b₁.toNat - 0x80)) * 64 + (b₂.toNat - 0x80)) * 64 +
            (b₃.toNat - 0x80) = n := by simpa [joinBytes] using hjoin
        obtain ⟨c, hval, hnat⟩ := char_of_lt n (by omega)
        refine ⟨c, hval, ?_⟩
        rcases encode_cases c with ⟨hl, -⟩ | ⟨-, hl, -⟩ | ⟨-, hl, -⟩ | ⟨-, -, -, he⟩
        · omega
        · omega
        · omega
        · rw [he, ofNat_eq (b := lead) (by omega), ofNat_eq (b := b₁) (by omega),
            ofNat_eq (b := b₂) (by omega), ofNat_eq (b := b₃) (by omega)]
          rfl
    · cases h

/-! ### Terminators -/

/-- Six bits for each continuation byte. -/
theorem joinBytes_bounds {count n m : Nat} {bytes : List UInt8}
    (h : joinBytes count n bytes = some m) : n * 64 ^ count ≤ m ∧ m < (n + 1) * 64 ^ count := by
  induction count generalizing n bytes with
  | zero =>
    obtain rfl := Option.some.inj h
    omega
  | succ count ih =>
    cases bytes with
    | nil => simp [joinBytes] at h
    | cons byte bytes =>
      rw [joinBytes] at h
      cases hc : continuation byte with
      | none => simp [hc] at h
      | some x =>
        rw [hc] at h
        have hx : x < 64 := by
          unfold continuation at hc
          split at hc
          · obtain rfl := Option.some.inj hc
            omega
          · cases hc
        obtain ⟨hge, hlt⟩ := ih h
        rw [Nat.pow_succ', ← Nat.mul_assoc, ← Nat.mul_assoc]
        exact ⟨Nat.le_trans (Nat.mul_le_mul_right _ (Nat.le_add_right _ x)) hge,
          Nat.lt_of_lt_of_le hlt (Nat.mul_le_mul_right _ (by omega))⟩

/-- Only a zero is read as the terminator. -/
theorem parse_ne_zero {lead : UInt8} {bytes : List UInt8} {k : Nat} {uc : UInt32}
    (h : parse (lead :: bytes) = (k + 1, uc)) (hlead : lead ≠ 0) : uc ≠ 0 := by
  rw [parse] at h
  cases hjoin : joinBytes (size lead - 1) (leadBits (size lead) lead) bytes with
  | none => simp [hjoin] at h
  | some n =>
    rw [hjoin] at h
    have hbounds := joinBytes_bounds hjoin
    have hpos : 0 < lead.toNat := Nat.pos_of_ne_zero fun hz => hlead (UInt8.toNat_inj.mp hz)
    have hbyte := lead.toNat_lt
    change accept (size lead) n = (k + 1, uc) at h
    unfold accept at h
    split at h
    · rename_i haccept
      obtain ⟨-, rfl⟩ := Prod.mk.inj h
      have hn : 0 < n ∧ n < 2 ^ 32 := by
        rcases size_bounds lead with hs | ⟨hs, hge, -⟩ | ⟨hs, -⟩ | ⟨hs, -⟩ <;>
          rw [hs] at hbounds haccept <;>
          simp [leadBits] at hbounds haccept <;> omega
      intro hzero
      have hval := congrArg UInt32.toNat hzero
      rw [UInt32.toNat_ofNat_of_lt' hn.2] at hval
      exact absurd hval (Nat.ne_of_gt hn.1)
    · cases h

/-- Bytes without a zero are decoded without a terminator. -/
theorem zero_notMem_decode {bytes : List UInt8} (h : 0 ∉ bytes) : 0 ∉ (decode bytes).1 := by
  induction hn : bytes.length using Nat.strongRecOn generalizing bytes with
  | _ n ih =>
    cases bytes with
    | nil => exact List.not_mem_nil
    | cons byte bytes =>
      rw [List.length_cons] at hn
      have hbytes : ∀ k, 0 ∉ (decode (bytes.drop k)).1 := fun k =>
        ih (bytes.drop k).length (by rw [List.length_drop]; omega)
          (fun hmem => h (List.mem_cons_of_mem _ (List.mem_of_mem_drop hmem))) rfl
      rw [decode_cons]
      rcases hparse : parse (byte :: bytes) with ⟨_ | k, uc⟩
      · exact fun hmem => (List.mem_cons.mp hmem).elim (by decide) (hbytes 0)
      · have huc := parse_ne_zero hparse fun hzero => h (hzero ▸ List.mem_cons_self)
        exact fun hmem => (List.mem_cons.mp hmem).elim (fun hz => huc hz.symm) (hbytes k)

end Utf8
