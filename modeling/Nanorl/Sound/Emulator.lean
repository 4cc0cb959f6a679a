import Nanorl.Lib.Terminal
import Nanorl.Sound.Reference

/-!
# Nanorl.Sound.Emulator

The terminal behind the echo file.

An `Emulator` reads bytes one by one and displays a `Terminal`; it `Understands` a
program if the characters, the line feed and the `cursor_address` the program sends are
commands to it. `ansiEmulator` is one that understands a program on xterm: it reads UTF-8
and the control sequence that addresses the cursor.
-/

namespace Nanorl

/-- A terminal that reads bytes. In some of its states it waits for the next command
and displays a screen. -/
structure Emulator (α : Type) where
  State : Type
  feed : State → Byte → State
  Displays : State → Terminal α → Prop
  glyph : Uchar → α

namespace Emulator

variable {α : Type} (E : Emulator α)

/-- The bytes are the command `f`. -/
def Conveys (bytes : List Byte) (f : Terminal α → Terminal α) : Prop :=
  ∀ s T, E.Displays s T → E.Displays (bytes.foldl E.feed s) (f T)

/-- What the program sends are commands: a character of one column, the two characters
it makes up itself, a line feed, and an address whose numbers still fit when they are
counted from one. -/
structure Understands (P : Platform) (t : Terminfo) : Prop where
  character {c : Uchar} : P.ucwidth c = 1 → E.Conveys (P.utf8Encode [c]) (·.print (E.glyph c))
  asterisk : E.Conveys [42] (·.print (E.glyph 42))
  space : E.Conveys [32] fun T => T.print T.blank
  lineFeed : E.Conveys [10] (·.lineFeed)
  address {row col : Nat} : row + 1 < 2 ^ 31 → col + 1 < 2 ^ 31 → ∃ format moveCmd,
    nrlLookupSpecial t TerminfoSpecial.cursorAddress.id = some format ∧
    nrlTerminfoStringFormat format [(row : Int), (col : Int)] = .ok (some moveCmd) ∧
    moveCmd.length + ioBufSize < 2 ^ 32 ∧ E.Conveys moveCmd (·.address row col)

variable {E}

theorem Conveys.nil : E.Conveys [] id := fun _ _ h => h

theorem Conveys.append {bytes rest : List Byte} {f g : Terminal α → Terminal α}
    (h : E.Conveys bytes f) (h' : E.Conveys rest g) : E.Conveys (bytes ++ rest) (g ∘ f) := by
  intro s T hs
  rw [List.foldl_append]
  exact h' _ _ (h _ _ hs)

/-- Characters that are commands one by one are a text. -/
theorem Conveys.prints {β : Type} {bytes : β → List Byte} {glyph : β → α} {text : List β}
    (h : ∀ b ∈ text, E.Conveys (bytes b) (·.print (glyph b))) :
    E.Conveys (text.flatMap bytes) (·.prints (text.map glyph)) := by
  induction text with
  | nil => exact .nil
  | cons b text ih =>
    rw [List.forall_mem_cons] at h
    exact h.1.append (ih h.2)

end Emulator

/-! ### An ANSI terminal -/

/-- A terminal that has read the beginning of a command. -/
structure AnsiState where
  pending : List Byte
  screen : Terminal Uchar

/-- The character of well-formed UTF-8. -/
def ansiCharacter (bytes : List Byte) : Uchar :=
  if (Utf8.parse bytes).1 = 0 then unicodeErrorChar else (Utf8.parse bytes).2

/-- A control sequence, by its parameters and its last byte. Only `CUP` is known. -/
def ansiControl (params : List Byte) (last : Byte) (T : Terminal Uchar) : Terminal Uchar :=
  -- ';', 'H'
  if last = 72 then
    T.address (digitsValue (params.takeWhile (· ≠ 59)) - 1)
      (digitsValue ((params.dropWhile (· ≠ 59)).drop 1) - 1)
  else T

/-- What the bytes behind an escape character mean. -/
def ansiEscape : List Byte → Option (Terminal Uchar → Terminal Uchar)
  | [] => none
  | kind :: params =>
    -- '['
    if kind = 91 then
      match params.getLast? with
      | none => none
      | some last => if last < 64 then none else some (ansiControl params.dropLast last)
    else some id

/-- What bytes mean; nothing as long as there are more to come. -/
def ansiCommand : List Byte → Option (Terminal Uchar → Terminal Uchar)
  | [] => none
  | lead :: bytes =>
    if lead = 27 then ansiEscape bytes
    else if lead = 10 then some (·.lineFeed)
    else if lead < 32 then some id
    else if bytes.length + 1 < Utf8.size lead then none
    else some (·.print (ansiCharacter (lead :: bytes)))

def AnsiState.feed (s : AnsiState) (byte : Byte) : AnsiState :=
  match ansiCommand (s.pending ++ [byte]) with
  | none => { s with pending := s.pending ++ [byte] }
  | some command => { pending := [], screen := command s.screen }

/-- The terminal as an emulator, whose code points are its glyphs. -/
def ansiEmulator : Emulator Uchar where
  State := AnsiState
  feed := AnsiState.feed
  Displays s T := s = { pending := [], screen := T } ∧ T.blank = 32
  glyph uc := if uc.isValidChar then uc else unicodeErrorChar

/-- Bytes without a meaning before the last of them are a command. -/
theorem ansiCommand_conveys {bytes : List Byte} {command : Terminal Uchar → Terminal Uchar}
    (h : ansiCommand bytes = some command) (hsize : ∀ T : Terminal Uchar, T.SameSize (command T))
    (hpart : ∀ n < bytes.length, ansiCommand (bytes.take n) = none) :
    ansiEmulator.Conveys bytes command := by
  have hfeed : ∀ (rest pending : List Byte) (T : Terminal Uchar), rest ≠ [] →
      ansiCommand (pending ++ rest) = some command →
      (∀ n < rest.length, ansiCommand (pending ++ rest.take n) = none) →
      rest.foldl AnsiState.feed { pending, screen := T } = { pending := [], screen := command T } := by
    intro rest
    induction rest with
    | nil => intro _ _ hne; exact absurd rfl hne
    | cons byte rest ih =>
      intro pending T _ hcommand hnone
      rw [List.foldl_cons, AnsiState.feed]
      cases rest with
      | nil =>
        rw [hcommand]
        rfl
      | cons byte' rest =>
        have hfirst := hnone 1 (by simp)
        rw [List.take_succ_cons, List.take_zero] at hfirst
        rw [hfirst]
        refine ih _ T (List.cons_ne_nil _ _) ?_ fun n hn => ?_
        · rw [List.append_assoc]
          exact hcommand
        · have hnext := hnone (n + 1) (by simpa using hn)
          rwa [List.take_succ_cons, ← List.singleton_append, ← List.append_assoc] at hnext
  intro s T hs
  obtain ⟨rfl, hblank⟩ : s = { pending := [], screen := T } ∧ T.blank = 32 := hs
  refine ⟨hfeed bytes [] T ?_ h hpart, (hsize T).blank.trans hblank⟩
  rintro rfl
  cases h

/-! ### Characters -/

theorem ansiCommand_character {c : Char} (hc : 0x20 ≤ c.val.toNat) (hdel : c.val.toNat ≠ 0x7f) :
    ansiEmulator.Conveys (String.utf8EncodeChar c) (·.print c.val) := by
  obtain ⟨lead, bytes, he, hsize⟩ := Utf8.size_encode c
  have hparse := Utf8.parse_encode c []
  have hlen := String.length_utf8EncodeChar c
  have hlead := (Utf8.ge_of_mem_encode hc hdel (he ▸ List.mem_cons_self)).1
  rw [List.append_nil, he] at hparse
  rw [he, List.length_cons] at hlen
  have hkind : ¬ lead = 27 ∧ ¬ lead = 10 ∧ ¬ lead < 32 := by
    refine ⟨?_, ?_, ?_⟩
    · rintro rfl
      exact absurd hlead (by decide)
    · rintro rfl
      exact absurd hlead (by decide)
    · intro hlt
      exact absurd (UInt8.lt_iff_toNat_lt.mp hlt) (Nat.not_lt.mpr hlead)
  have hcommand : ∀ rest, ansiCommand (lead :: rest) =
      if rest.length + 1 < Utf8.size lead then none
      else some (·.print (ansiCharacter (lead :: rest))) := by
    intro rest
    rw [ansiCommand, if_neg hkind.1, if_neg hkind.2.1, if_neg hkind.2.2]
  rw [he]
  refine ansiCommand_conveys ?_ (fun T => T.sameSize_print _) fun n hn => ?_
  · have hcharacter : ansiCharacter (lead :: bytes) = c.val := by
      rw [ansiCharacter, hparse, if_neg (Nat.ne_of_gt c.utf8Size_pos)]
    rw [hcommand, if_neg (by omega), hcharacter]
  · cases n with
    | zero => rfl
    | succ n =>
      rw [List.take_succ_cons, hcommand, if_pos]
      rw [List.length_cons] at hn
      rw [List.length_take]
      omega

/-! ### Addresses -/

theorem isDigit_bounds {c : Char} (h : c.isDigit) : 48 ≤ c.toNat ∧ c.toNat < 58 := by
  obtain ⟨hle, hge⟩ := Char.isDigit_iff_toNat.mp h
  exact ⟨hle, Nat.lt_succ_of_le hge⟩

theorem isDigit_of_mem_digits {n : Nat} {c : Char} (h : c ∈ Nat.toDigits 10 n) : c.isDigit :=
  Nat.isDigit_of_mem_toDigits (by decide) (by decide) h

theorem digits_bounds {n : Nat} {b : Byte} (h : b ∈ digits n) : 48 ≤ b.toNat ∧ b.toNat < 58 := by
  obtain ⟨c, hc, rfl⟩ := List.mem_map.mp h
  have hbounds := isDigit_bounds (isDigit_of_mem_digits hc)
  rwa [Utf8.toNat_ofNat (by omega)]

/-- A number is read as it was written. -/
theorem digitsValue_digits (n : Nat) : digitsValue (digits n) = n := by
  have hvalue : ∀ (cs : List Char) (acc : Nat), (∀ c ∈ cs, c.isDigit) →
      (cs.map fun c => UInt8.ofNat c.toNat).foldl (fun n d => 10 * n + (d.toNat - 48)) acc =
        Nat.ofDigitChars 10 cs acc := by
    intro cs
    induction cs with
    | nil => intro acc _; simp
    | cons c cs ih =>
      intro acc hdigits
      rw [List.forall_mem_cons] at hdigits
      have hbounds := isDigit_bounds hdigits.1
      rw [List.map_cons, List.foldl_cons, Nat.ofDigitChars_cons, Utf8.toNat_ofNat (by omega)]
      exact ih _ hdigits.2
  rw [digitsValue, digits, hvalue _ _ fun c hc => isDigit_of_mem_digits hc]
  exact Nat.ofDigitChars_ten_toDigits

theorem length_digits_le {n k : Nat} (hk : 0 < k) (h : n < 10 ^ k) : (digits n).length ≤ k := by
  rw [digits, List.length_map]
  exact (Nat.length_toDigits_le_iff (by decide) hk).mpr h

/-- The parameters of `CUP`, counted from one. -/
def cupParams (row col : Nat) : List Byte := digits (row + 1) ++ 59 :: digits (col + 1)

theorem cupParams_lt {row col : Nat} {b : Byte} (h : b ∈ cupParams row col) : b < 64 := by
  have hdigit : ∀ n, b ∈ digits n → b < 64 := fun n hb =>
    UInt8.lt_iff_toNat_lt.mpr (Nat.lt_of_lt_of_le (digits_bounds hb).2 (by decide))
  rcases List.mem_append.mp h with hb | hb
  · exact hdigit _ hb
  · rcases List.mem_cons.mp hb with rfl | hb
    · decide
    · exact hdigit _ hb

theorem ansiControl_cup (row col : Nat) (T : Terminal Uchar) :
    ansiControl (cupParams row col) 72 T = T.address row col := by
  have hne : ∀ b ∈ digits (row + 1), decide (b ≠ 59) = true := by
    intro b hb
    refine decide_eq_true fun heq => ?_
    have hlt := (digits_bounds hb).2
    rw [heq] at hlt
    exact absurd hlt (by decide)
  rw [ansiControl, if_pos rfl, cupParams, List.takeWhile_append_of_pos hne, List.dropWhile_append_of_pos hne]
  simp [digitsValue_digits]

theorem ansiCommand_cup (row col : Nat) :
    ansiEmulator.Conveys (27 :: 91 :: (cupParams row col ++ [72])) (·.address row col) := by
  refine ansiCommand_conveys ?_ (fun T => T.sameSize_address _ _) fun n hn => ?_
  · show (match (cupParams row col ++ [72]).getLast? with
      | none => none
      | some last => if last < 64 then none
          else some (ansiControl (cupParams row col ++ [72]).dropLast last)) = _
    rw [List.getLast?_concat, List.dropLast_concat]
    exact congrArg some (funext (ansiControl_cup row col))
  · match n with
    | 0 => rfl
    | 1 => rfl
    | n + 2 =>
      have hle : n ≤ (cupParams row col).length := by
        simp only [List.length_cons, List.length_append, List.length_nil] at hn
        omega
      show (match ((cupParams row col ++ [72]).take n).getLast? with
        | none => none
        | some last => if last < 64 then none
            else some (ansiControl ((cupParams row col ++ [72]).take n).dropLast last)) = _
      rw [List.take_append_of_le_length hle]
      split
      · rfl
      · rename_i last hlast
        rw [if_pos (cupParams_lt (List.mem_of_mem_take (List.mem_of_getLast? hlast)))]

theorem cup_format (x y : Int) :
    nrlTerminfoStringFormat [27, 91, 37, 105, 37, 112, 49, 37, 100, 59, 37, 112, 50, 37, 100, 72] [x, y] =
      .ok (some (27 :: 91 :: (decimal (int32 (x + 1)) ++ 59 :: (decimal (int32 (y + 1)) ++ [72])))) := by
  simp [nrlTerminfoStringFormat, formatLoop]

theorem decimal_succ {n : Nat} (hn : n + 1 < 2 ^ 31) : decimal (int32 ((n : Int) + 1)) = digits (n + 1) := by
  rw [int32_of_lt (by omega) (by omega), decimal, if_neg (by omega)]
  rfl

/-- The terminal reads what a program on xterm writes. -/
theorem ansiEmulator_understands : ansiEmulator.Understands referencePlatform xtermTerminfo where
  character := by
    intro c hc
    have hprintable : 0x20 ≤ c.toNat ∧ c.toNat ≠ 0x7f := by
      have hwidth : referenceWidth c = 1 := hc
      unfold referenceWidth at hwidth
      split at hwidth
      · cases hwidth
      · split at hwidth
        · cases hwidth
        · rename_i hcontrol
          rw [UInt32.lt_iff_toNat_lt, UInt32.le_iff_toNat_le, UInt32.lt_iff_toNat_lt] at hcontrol
          have h₁ : (0x20 : UInt32).toNat = 0x20 := rfl
          have h₂ : (0x7f : UInt32).toNat = 0x7f := rfl
          have h₃ : (0xa0 : UInt32).toNat = 0xa0 := rfl
          omega
    show ansiEmulator.Conveys (referenceEncode [c])
      (·.print (if c.isValidChar then c else unicodeErrorChar))
    rw [referenceEncode, List.flatMap_singleton]
    split
    · rename_i hvalid
      exact ansiCommand_character (c := ⟨c, hvalid⟩) hprintable.1 hprintable.2
    · exact ansiCommand_character (c := Char.ofNat 0xfffd) (by decide) (by decide)
  asterisk := ansiCommand_character (c := '*') (by decide) (by decide)
  space := by
    intro s T hs
    have hprint := ansiCommand_character (c := ' ') (by decide) (by decide) s T hs
    dsimp only
    rw [show T.blank = 32 from hs.2]
    exact hprint
  lineFeed := ansiCommand_conveys rfl (fun T => T.sameSize_lineFeed) (by decide)
  address := by
    intro row col hrow hcol
    refine ⟨ascii "\x1b[%i%p1%d;%p2%dH", 27 :: 91 :: (cupParams row col ++ [72]), by decide, ?_, ?_,
      ansiCommand_cup row col⟩
    · have hascii : ascii "\x1b[%i%p1%d;%p2%dH" =
        [27, 91, 37, 105, 37, 112, 49, 37, 100, 59, 37, 112, 50, 37, 100, 72] := by decide
      rw [hascii, cup_format, decimal_succ hrow, decimal_succ hcol, cupParams, List.append_assoc]
      rfl
    · have hrow' := length_digits_le (n := row + 1) (k := 10) (by decide) (by omega)
      have hcol' := length_digits_le (n := col + 1) (k := 10) (by decide) (by omega)
      simp only [List.length_cons, List.length_append, List.length_nil, cupParams, ioBufSize]
      omega

end Nanorl
