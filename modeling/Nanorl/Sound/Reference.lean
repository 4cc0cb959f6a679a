import Nanorl.Lib.Utf8
import Nanorl.Model.Render
import Nanorl.Sound.Tokens

/-!
# Nanorl.Sound.Reference

What the results assume of c-utils, and a platform that fulfils it.

`Platform.Utf8Laws` is UTF-8 as the standard has it: `utf8_inspect` knows the size of
a character from its lead byte, `utf8_parse_uchar` reads one character and
`utf8_encode` writes a text. `referencePlatform` is such a platform with the widths
of a terminal that knows neither wide nor combining characters. Concrete runs are
made on it.
-/

namespace Nanorl

/-- UTF-8, where the text is well formed. -/
structure Platform.Utf8Laws (P : Platform) : Prop where
  inspect : ∀ (c : Char) (a : Stream' Byte),
    announced P (String.utf8EncodeChar c ++ₛ a) = c.utf8Size
  parse : ∀ c : Char, P.utf8ParseUchar (ucharBuffer (String.utf8EncodeChar c)) = (c.utf8Size, c.val)
  encode : ∀ text : List Char,
    P.utf8Encode (text.map Char.val) = text.flatMap String.utf8EncodeChar

/-- `ucswidth` adds up the widths of a text of printable characters. -/
def Platform.WidthLaw (P : Platform) : Prop :=
  ∀ text : List Uchar, (∀ c ∈ text, 0 ≤ P.ucwidth c) → P.ucswidth text = (text.map P.ucwidth).sum

/-- `utf8_decode` goes on behind a well-formed beginning as if it started there. -/
def Platform.DecodeLaw (P : Platform) : Prop :=
  ∀ bytes rest : List Byte, (P.utf8Decode bytes).2 = false →
    (P.utf8Decode (bytes ++ rest)).1 = (P.utf8Decode bytes).1 ++ (P.utf8Decode rest).1

/-- Only the empty text has an empty encoding. -/
def Platform.EncodeLaw (P : Platform) : Prop :=
  ∀ text : List Uchar, P.utf8Encode text = [] ↔ text = []

/-- A text is encoded character by character. -/
def Platform.EncodeEachLaw (P : Platform) : Prop :=
  ∀ text : List Uchar, P.utf8Encode text = text.flatMap fun c => P.utf8Encode [c]

/-- The terminator takes no column. -/
def Platform.NulLaw (P : Platform) : Prop := P.ucwidth 0 = 0

/-- A newline or an end of file is not decoded from a character whose last byte is zero. -/
def Platform.StopLaw (P : Platform) : Prop :=
  ∀ (lead : Byte) (bytes : List Byte), bytes.length = (P.utf8Inspect lead).following →
    (P.utf8ParseUchar (ucharBuffer (lead :: bytes))).1 ≠ 0 →
    (P.utf8ParseUchar (ucharBuffer (lead :: bytes))).2 = 10 ∨
      (P.utf8ParseUchar (ucharBuffer (lead :: bytes))).2 = charEot.toUInt32 →
    (lead :: bytes).getLast? ≠ some 0

/-- `utf8_parse_uchar` accepts encodings of characters and nothing else. -/
def Platform.StrictLaw (P : Platform) : Prop :=
  ∀ (lead : Byte) (bytes : List Byte), bytes.length = (P.utf8Inspect lead).following →
    (P.utf8ParseUchar (ucharBuffer (lead :: bytes))).1 ≠ 0 →
    ∃ c : Char, lead :: bytes = String.utf8EncodeChar c ∧
      (P.utf8ParseUchar (ucharBuffer (lead :: bytes))).2 = c.val

/-- The code points `wcwidth` has no width for. -/
def IsControl (uc : Uchar) : Prop := (0 < uc ∧ uc < 0x20) ∨ (0x7f ≤ uc ∧ uc < 0xa0)

instance (uc : Uchar) : Decidable (IsControl uc) := inferInstanceAs (Decidable (_ ∨ _))

/-- `ucwidth` follows `wcwidth`. -/
structure Platform.ControlLaw (P : Platform) : Prop where
  control : ∀ uc : Uchar, P.ucwidth uc = -1 ↔ IsControl uc
  ge : ∀ uc : Uchar, -1 ≤ P.ucwidth uc

/-- ASCII characters take one byte. -/
def Platform.AsciiLaw (P : Platform) : Prop :=
  ∀ a : Stream' Byte, a.get 0 < 0x80 → announced P a = 1 ∧
    P.utf8ParseUchar (ucharBuffer [a.get 0]) = (1, (a.get 0).toUInt32)

theorem utf8EncodeChar_ascii {b : Byte} (h : b < 0x80) :
    ∃ c : Char, String.utf8EncodeChar c = [b] ∧ c.val = b.toUInt32 ∧ c.utf8Size = 1 := by
  have hlt : b.toNat < 0x80 := UInt8.lt_iff_toNat_lt.mp h
  have hval : b.toUInt32.toNat = b.toNat := rfl
  refine ⟨⟨b.toUInt32, Or.inl (by rw [hval]; omega)⟩, ?_, rfl, ?_⟩
  · rw [String.utf8EncodeChar, if_pos (by show b.toUInt32.toNat ≤ 0x7f; omega)]
    exact congrArg (· :: []) UInt8.ofNat_toNat
  · rw [Char.utf8Size, if_pos]
    exact UInt32.le_iff_toNat_le.mpr (by rw [hval]; show _ ≤ 127; omega)

theorem Platform.Utf8Laws.ascii {P : Platform} (h : P.Utf8Laws) : P.AsciiLaw := by
  intro a ha
  obtain ⟨c, hc, hval, hsize⟩ := utf8EncodeChar_ascii ha
  have hinspect := h.inspect c (a.drop 1)
  have hparse := h.parse c
  rw [hc, hsize] at hinspect hparse
  rw [hval] at hparse
  refine ⟨?_, hparse⟩
  rw [← hinspect]
  rfl

/-- The class of a lead byte. -/
def referenceInspect (b : Byte) : Utf8Info :=
  match Utf8.size b with
  | 2 => .twoBytes
  | 3 => .threeBytes
  | 4 => .fourBytes
  | _ => .other

/-- The columns of a character: none for a terminator, an error for a control
character. -/
def referenceWidth (uc : Uchar) : Int :=
  if uc = 0 then 0 else if uc < 0x20 ∨ (0x7f ≤ uc ∧ uc < 0xa0) then -1 else 1

/-- The encoding of a text of scalar values; other values become U+FFFD. -/
def referenceEncode (text : List Uchar) : List Byte :=
  text.flatMap fun uc =>
    if h : uc.isValidChar then String.utf8EncodeChar ⟨uc, h⟩
    else String.utf8EncodeChar (Char.ofNat 0xfffd)

def referencePlatform : Platform where
  ndebug := false
  utf8Inspect := referenceInspect
  utf8ParseUchar := Utf8.parse
  utf8Encode := referenceEncode
  utf8Decode := Utf8.decode
  ucwidth := referenceWidth
  ucswidth := fun text =>
    if text.any (fun uc => referenceWidth uc = -1) then -1 else (text.map referenceWidth).sum

/-- A process whose input is a pipe at its end. -/
def idleWorld : World where
  errno := .none
  reads := []
  writes := []
  echoed := []
  stray := fun _ _ => 0
  isTty := false
  calls := []
  winsizes := []
  attrs := { icanon := true, echo := true, rest := 0 }
  actions := fun _ => .caller 0

/-- The static data of `io.c` before the first call. -/
def staticIo : Io where
  readFile := -1
  echoFile := -1
  rdBuf := fun _ => 0
  rdCount := 0
  rdUsed := 0
  rdPending := 0
  wrBuf := fun _ => 0
  wrCount := 0
  preloadData := none
  echoEnabled := false
  world := idleWorld

/-- The static data of `render.c` before the first call. -/
def staticRender : Render where
  echoMode := .off
  lastRenderedWidth := 0
  termSmart := false
  echoFd := -1
  resizeFlag := false
  termSize := ⟨0, 0⟩
  cursorPos := ⟨0, 0⟩
  scrolled := 0

theorem size_cases (b : Byte) : Utf8.size b = 1 ∨ Utf8.size b = 2 ∨ Utf8.size b = 3 ∨ Utf8.size b = 4 := by
  rcases Utf8.size_bounds b with h | ⟨h, -⟩ | ⟨h, -⟩ | ⟨h, -⟩ <;> simp [h]

theorem announced_reference (a : Stream' Byte) :
    announced referencePlatform a = Utf8.size (a.get 0) := by
  show 1 + (referenceInspect (a.get 0)).following = _
  rw [referenceInspect]
  rcases size_cases (a.get 0) with h | h | h | h <;> rw [h] <;> rfl

theorem referencePlatform_consumes : referencePlatform.ConsumesAnnounced := by
  intro a
  rw [announced_reference]
  obtain ⟨n, hn⟩ : ∃ n, Utf8.size (a.get 0) = n + 1 := by
    rcases size_cases (a.get 0) with h | h | h | h <;> exact ⟨_, h⟩
  rw [hn, Stream'.take_succ, ← hn]
  exact Utf8.parse_consumes (a.get 0) _

theorem referencePlatform_utf8 : referencePlatform.Utf8Laws := by
  refine ⟨fun c a => ?_, fun c => Utf8.parse_encode c _, fun text => ?_⟩
  · obtain ⟨lead, bytes, he, hsize⟩ := Utf8.size_encode c
    rw [announced_reference, he]
    exact hsize
  · induction text with
    | nil => rfl
    | cons c text ih =>
      show referenceEncode (c.val :: text.map Char.val) = _
      rw [referenceEncode, List.flatMap_cons, List.flatMap_cons, dif_pos c.valid]
      exact congrArg _ ih

theorem referencePlatform_ascii : referencePlatform.AsciiLaw := referencePlatform_utf8.ascii

/-- The platform with other widths of characters. -/
def Platform.withWidths (P : Platform) (width : Uchar → Int) : Platform :=
  { P with
    ucwidth := width
    ucswidth := fun text => if text.any (fun uc => width uc = -1) then -1 else (text.map width).sum }

theorem Platform.withWidths_width (P : Platform) (width : Uchar → Int) :
    (P.withWidths width).WidthLaw := by
  intro text h
  show (if text.any (fun uc => width uc = -1) then -1 else (text.map width).sum) = _
  rw [if_neg]
  · rfl
  · intro hany
    obtain ⟨c, hc, hneg⟩ := List.any_eq_true.mp hany
    have hle : 0 ≤ width c := h c hc
    rw [of_decide_eq_true hneg] at hle
    exact absurd hle (by decide)

theorem referencePlatform_width : referencePlatform.WidthLaw :=
  referencePlatform.withWidths_width referenceWidth

theorem following_reference (lead : Byte) :
    (referencePlatform.utf8Inspect lead).following = Utf8.size lead - 1 := by
  show (referenceInspect lead).following = _
  unfold referenceInspect
  rcases size_cases lead with h | h | h | h <;> rw [h] <;> rfl

theorem referencePlatform_stop : referencePlatform.StopLaw := by
  intro lead bytes hlength hconsumed hstop hzero
  have hsize : bytes.length = Utf8.size lead - 1 := hlength.trans (following_reference lead)
  have hbuffer : ucharBuffer (lead :: bytes) = lead :: (bytes ++ List.replicate (3 - bytes.length) 0) := by
    simp [ucharBuffer]
  replace hconsumed : (Utf8.parse (ucharBuffer (lead :: bytes))).1 ≠ 0 := hconsumed
  replace hstop : (Utf8.parse (ucharBuffer (lead :: bytes))).2 = 10 ∨
    (Utf8.parse (ucharBuffer (lead :: bytes))).2 = charEot.toUInt32 := hstop
  rw [hbuffer, Utf8.parse, ← hsize] at hconsumed hstop
  cases hjoin : Utf8.joinBytes bytes.length (Utf8.leadBits (Utf8.size lead) lead)
      (bytes ++ List.replicate (3 - bytes.length) 0) with
  | none => simp [hjoin] at hconsumed
  | some n =>
    have hrest := Utf8.joinBytes_ne_zero hjoin
    cases bytes with
    | nil =>
      obtain rfl : lead = 0 := by simpa using hzero
      rw [hjoin] at hstop
      obtain rfl := Option.some.inj hjoin
      revert hstop
      decide
    | cons byte bytes =>
      rw [List.getLast?_cons_cons] at hzero
      exact hrest (List.mem_of_getLast? hzero)

theorem referencePlatform_strict : referencePlatform.StrictLaw := by
  intro lead bytes hlength hconsumed
  rw [following_reference] at hlength
  have hbuffer : ucharBuffer (lead :: bytes) = lead :: (bytes ++ List.replicate (3 - bytes.length) 0) := by
    simp [ucharBuffer]
  rw [hbuffer] at hconsumed ⊢
  rcases hparse : Utf8.parse (lead :: (bytes ++ List.replicate (3 - bytes.length) 0)) with ⟨_ | k, uc⟩
  · exact absurd (congrArg Prod.fst hparse) hconsumed
  · obtain ⟨c, hval, hencode⟩ := Utf8.encode_of_parse hparse
    have hall := (Utf8.parse_consumes lead (bytes ++ List.replicate (3 - bytes.length) 0)).resolve_left hconsumed
    rw [hparse] at hall
    have hk : bytes.length = k := by
      rw [hlength, ← hall]
      rfl
    rw [List.take_left' hk] at hencode
    exact ⟨c, hencode.symm, (congrArg Prod.snd hparse).trans hval.symm⟩

theorem referencePlatform_control : referencePlatform.ControlLaw := by
  refine ⟨fun uc => ?_, fun uc => ?_⟩
  · show referenceWidth uc = -1 ↔ _
    unfold referenceWidth IsControl
    simp only [← UInt32.toNat_inj, UInt32.lt_iff_toNat_lt, UInt32.le_iff_toNat_le, UInt32.reduceToNat]
    split_ifs with hzero hcontrol
    · exact iff_of_false id (by omega)
    · exact iff_of_true rfl (by omega)
    · exact iff_of_false id (by omega)
  · show -1 ≤ referenceWidth uc
    unfold referenceWidth
    split_ifs <;> decide

theorem referencePlatform_encodeEach : referencePlatform.EncodeEachLaw := by
  intro text
  show referenceEncode text = text.flatMap fun c => referenceEncode [c]
  simp [referenceEncode]

theorem referencePlatform_nul : referencePlatform.NulLaw := rfl

theorem referencePlatform_encode : referencePlatform.EncodeLaw := by
  intro text
  have hchar : ∀ c : Char, String.utf8EncodeChar c ≠ [] := by
    intro c hc
    obtain ⟨lead, bytes, he, -⟩ := Utf8.size_encode c
    rw [he] at hc
    cases hc
  cases text with
  | nil => exact ⟨fun _ => rfl, fun _ => rfl⟩
  | cons uc text =>
    refine ⟨fun h => ?_, nofun⟩
    have hfirst := (List.append_eq_nil_iff.mp h).1
    dsimp only at hfirst
    split at hfirst <;> exact absurd hfirst (hchar _)

theorem referencePlatform_decode : referencePlatform.DecodeLaw :=
  fun _ rest h => congrArg Prod.fst (Utf8.decode_append h rest)

end Nanorl
