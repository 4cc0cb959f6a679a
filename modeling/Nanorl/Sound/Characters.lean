import Nanorl.Sound.Loop
import Nanorl.Sound.Reference

/-!
# Nanorl.Sound.Characters

Which characters get into the line.

Without handlers every call of the loop is an edit, and an edit keeps what holds of all
characters of the line if it holds of those it inserts (`CursorOp.perform_chars`). What is
inserted is a caret form or a character that is none of C0 and DEL, so the line has no
terminator in it (`line_whole`). A C1 character goes through all the same, and has no
width: `displayable_iff` says when none does. The bytes of a custom sequence are widened
with their sign, so a sequence is spelled as it is only if it is ASCII
(`spelled_iff`).
-/

namespace Nanorl

open Run (Ends)

/-! ### Calls -/

/-- The characters a call inserts. -/
def EditOp.inserted : EditOp → List Uchar
  | .insert text => text
  | _ => []

/-- `Q` holds of the characters of the line, whose cursor is within it. -/
structure LineData.Holds (Q : Uchar → Prop) (line : LineData) : Prop where
  cursor_le : line.cursor ≤ line.buffer.length
  chars : ∀ c ∈ line.buffer, Q c

/-- An edit that inserts such characters only. -/
def CursorOp.Inserts (Q : Uchar → Prop) : CursorOp → Prop
  | .edit op => ∀ c ∈ op.inserted, Q c
  | .custom _ _ => False

theorem zipperOp_chars {Q : Uchar → Prop} {op : EditOp} (hop : ∀ c ∈ op.inserted, Q c)
    {z : Zipper Uchar} (hz : ∀ c ∈ z.toList, Q c) : ∀ c ∈ (zipperOp z op).toList, Q c := by
  intro c hc
  cases op with
  | insert text => exact (Zipper.mem_insert.mp hc).elim (hop c) (hz c)
  | redraw => exact hz c hc
  | sync => exact hz c hc
  | escape key =>
    refine hz c ?_
    cases key with
    | keyLeft => exact z.toList_moveLeft ▸ hc
    | keyRight => exact z.toList_moveRight ▸ hc
    | keyHome => exact z.toList_home ▸ hc
    | keyEnd => exact z.toList_toEnd ▸ hc
    | keyDelete => exact Zipper.mem_of_mem_delete hc
    | keyBackspace => exact Zipper.mem_of_mem_backspace hc

/-- A line with its cursor within it is shown by a zipper. -/
theorem LineData.Holds.shows {Q : Uchar → Prop} {line : LineData} (h : line.Holds Q) :
    ∃ z : Zipper Uchar, line.Shows z ∧ ∀ c ∈ z.toList, Q c := by
  have htext : line.buffer =
      (Zipper.mk (line.buffer.take line.cursor).reverse (line.buffer.drop line.cursor)).toList := by
    simp [Zipper.toList]
  refine ⟨_, ⟨htext, ?_⟩, htext ▸ h.chars⟩
  simp [Zipper.cursor, h.cursor_le]

section Calls

variable (P : Platform) (t : Terminfo) {F : Fault → Prop} [QueryFaults F] {Q : Uchar → Prop}

/-- The step: an edit keeps what holds of the characters of the line. -/
theorem CursorOp.perform_chars (hvector : F (.assertion .vectorStatus))
    (hsmart : F (.assertion .termSmart)) (hdiv : F .divByZero)
    (hwidths : ∀ text, (∀ c ∈ text, Q c) → WidthFaults P F (text ++ [0]))
    {op : CursorOp} (hop : op.Inserts Q) {e : Editor} (h : e.line.Holds Q) :
    Ends F (fun e' => e'.line.Holds Q) (op.perform P t e) := by
  cases op with
  | custom table escape => exact hop.elim
  | edit op =>
    obtain ⟨z, hz, hchars⟩ := h.shows
    refine ⟨fun hok => ?_, fun hf => ?_⟩
    · have hshows := (op.perform_ends P t hz).of_ok hok
      exact ⟨hshows.cursor_le, hshows.buffer ▸ zipperOp_chars hop hchars⟩
    · exact (CursorOp.perform_widths P t hvector (hwidths _ h.chars) (fun _ => ⟨fun _ => hsmart,
        fun _ => hdiv⟩) fun _ _ _ _ => hdiv).of_error hf

end Calls

/-! ### Reads -/

section Reads

variable (P : Platform)

/-- The bytes `next_uchar` loads in this read, if the parser has not found a key. -/
def loadedBytes (root : DfaNode) (buffer : InputBuf) (s : Io) : Except Fault (Option (List Byte)) := do
  let (result, _, s) ← nrlDfaParse (nextChar P) root buffer.escape s
  if result ≠ .empty then pure none
  else
    let s ← fillUnparsed P s
    let (lead, s) ← nextChar P { s with rdPending := 0 }
    let (bytes, _) ← nextChars P (P.utf8Inspect lead).following s
    pure (some (lead :: bytes))

/-- What the loaded bytes are taken for. -/
def decoded (loaded : List Byte) : Uchar :=
  if (P.utf8ParseUchar (ucharBuffer loaded)).1 = 0 then unicodeErrorChar
  else (P.utf8ParseUchar (ucharBuffer loaded)).2

theorem length_nextChars {count : Nat} {s s' : Io} {bytes : List Byte}
    (h : nextChars P count s = .ok (bytes, s')) : bytes.length = count := by
  induction count generalizing s s' bytes with
  | zero =>
    obtain ⟨rfl, -⟩ := Prod.mk.inj (Except.ok.inj h)
    rfl
  | succ count ih =>
    obtain ⟨⟨byte, s₁⟩, -, h⟩ := Run.bind_eq_ok.mp h
    obtain ⟨⟨bytes, s₂⟩, hrest, h⟩ := Run.bind_eq_ok.mp h
    obtain ⟨rfl, -⟩ := Prod.mk.inj (Except.ok.inj h)
    rw [List.length_cons, ih hrest]

/-- A read fails while it loads, finds a key, or classifies what it has loaded. -/
theorem nrlIoRead_loaded (root : DfaNode) (buffer : InputBuf) (s : Io) :
    (∃ f, loadedBytes P root buffer s = .error f ∧ nrlIoRead P root buffer s = .error f) ∨
    (∃ type buffer' s', loadedBytes P root buffer s = .ok none ∧
      nrlIoRead P root buffer s = .ok (type, buffer', s') ∧ type ≠ .text ∧ type ≠ .stop) ∨
    ∃ lead bytes buffer' s', loadedBytes P root buffer s = .ok (some (lead :: bytes)) ∧
      bytes.length = (P.utf8Inspect lead).following ∧
      nrlIoRead P root buffer s = .ok ((classify (decoded P (lead :: bytes)) buffer').1,
        (classify (decoded P (lead :: bytes)) buffer').2, s') := by
  unfold loadedBytes nrlIoRead
  cases nrlDfaParse (nextChar P) root buffer.escape s with
  | error f => exact .inl ⟨f, rfl, rfl⟩
  | ok r =>
    obtain ⟨result, escape, s₁⟩ := r
    dsimp only [Run.ok_bind]
    by_cases hkey : result ≠ .empty
    · rw [if_pos hkey, if_pos hkey]
      refine .inr (.inl ⟨_, _, _, rfl, rfl, ?_⟩)
      split <;> exact ⟨nofun, nofun⟩
    · rw [if_neg hkey, if_neg hkey]
      cases fillUnparsed P s₁ with
      | error f => exact .inl ⟨f, rfl, rfl⟩
      | ok s₂ =>
        dsimp only [Run.ok_bind]
        unfold nextUchar
        cases nextChar P { s₂ with rdPending := 0 } with
        | error f => exact .inl ⟨f, rfl, rfl⟩
        | ok r =>
          obtain ⟨lead, s₃⟩ := r
          dsimp only [Run.ok_bind]
          cases hrest : nextChars P (P.utf8Inspect lead).following s₃ with
          | error f => exact .inl ⟨f, rfl, rfl⟩
          | ok r =>
            obtain ⟨bytes, s₄⟩ := r
            refine .inr (.inr ⟨lead, bytes, ?_⟩)
            unfold decoded
            dsimp only [Run.ok_bind]
            split
            · exact ⟨_, _, rfl, length_nextChars P hrest, rfl⟩
            · exact ⟨_, _, rfl, length_nextChars P hrest, rfl⟩

/-- The text of a read is the caret form of what it has loaded. -/
theorem nrlIoRead_text {root : DfaNode} {buffer buffer' : InputBuf} {s s' : Io}
    (h : nrlIoRead P root buffer s = .ok (.text, buffer', s')) : ∃ lead bytes,
      loadedBytes P root buffer s = .ok (some (lead :: bytes)) ∧
      bytes.length = (P.utf8Inspect lead).following ∧
      buffer'.text = caretForm (decoded P (lead :: bytes)) := by
  rcases nrlIoRead_loaded P root buffer s with
    ⟨f, -, hread⟩ | ⟨type, b, s₁, -, hread, htext, -⟩ | ⟨lead, bytes, b, s₁, hloaded, hlength, hread⟩
  · rw [hread] at h
    cases h
  · rw [hread] at h
    exact absurd (congrArg Prod.fst (Except.ok.inj h)) htext
  · refine ⟨lead, bytes, hloaded, hlength, ?_⟩
    rw [hread, classify_eq] at h
    split at h
    · cases h
    · obtain ⟨-, h⟩ := Prod.mk.inj (Except.ok.inj h)
      obtain ⟨rfl, -⟩ := Prod.mk.inj h
      rfl

end Reads

/-! ### Control characters -/

/-- Neither a C0 code nor DEL. -/
def Graphic (uc : Uchar) : Prop := 0x20 ≤ uc ∧ uc ≠ 0x7f

theorem caretForm_graphic (uc : Uchar) : ∀ c ∈ caretForm uc, Graphic c := by
  intro c hc
  unfold caretForm at hc
  unfold Graphic
  split_ifs at hc with hdel hprint
  · rcases List.mem_cons.mp hc with rfl | hc
    · decide
    · obtain rfl := List.mem_singleton.mp hc
      decide
  · obtain rfl := List.mem_singleton.mp hc
    exact ⟨hprint, hdel⟩
  · rcases List.mem_cons.mp hc with rfl | hc
    · decide
    · obtain rfl := List.mem_singleton.mp hc
      simp only [ge_iff_le, UInt32.le_iff_toNat_le, ne_eq, ← UInt32.toNat_inj, UInt32.toNat_add,
        UInt32.reduceToNat] at hprint ⊢
      omega

/-- Of the caret forms only a C1 code is a control character. -/
theorem caretForm_control (uc : Uchar) :
    (∃ c ∈ caretForm uc, IsControl c) ↔ 0x80 ≤ uc ∧ uc < 0xa0 := by
  refine ⟨fun ⟨c, hc, hcontrol⟩ => ?_, fun h => ⟨uc, ?_, .inr ?_⟩⟩
  · obtain ⟨hge, hdel⟩ := caretForm_graphic uc c hc
    have hc1 : 0x80 ≤ c ∧ c < 0xa0 := by
      unfold IsControl at hcontrol
      simp only [UInt32.le_iff_toNat_le, UInt32.lt_iff_toNat_lt, ne_eq, ← UInt32.toNat_inj,
        UInt32.reduceToNat] at hge hdel hcontrol ⊢
      omega
    unfold caretForm at hc
    split_ifs at hc with huc hprint
    · rcases List.mem_cons.mp hc with rfl | hc
      · exact absurd hc1.1 (by decide)
      · obtain rfl := List.mem_singleton.mp hc
        exact absurd hc1.1 (by decide)
    · obtain rfl := List.mem_singleton.mp hc
      exact hc1
    · rcases List.mem_cons.mp hc with rfl | hc
      · exact absurd hc1.1 (by decide)
      · obtain rfl := List.mem_singleton.mp hc
        simp only [ge_iff_le, UInt32.le_iff_toNat_le, UInt32.lt_iff_toNat_lt, UInt32.toNat_add,
          UInt32.reduceToNat] at hprint hc1
        omega
  · simp only [UInt32.le_iff_toNat_le, UInt32.lt_iff_toNat_lt, UInt32.reduceToNat] at h
    have hprint : uc ≥ 0x20 := UInt32.le_iff_toNat_le.mpr (by simp only [UInt32.reduceToNat]; omega)
    have hdel : uc ≠ 0x7f := by
      rintro rfl
      simp at h
    rw [caretForm, if_neg hdel, if_pos hprint]
    exact List.mem_singleton.mpr rfl
  · simp only [UInt32.le_iff_toNat_le, UInt32.lt_iff_toNat_lt, UInt32.reduceToNat] at h ⊢
    omega

/-- A character of a custom sequence is inserted like one that is typed. -/
theorem spelling_eq (c : Byte) : spelling c = caretForm (signedChar c) := by
  unfold spelling nrlIoParseControl caretForm
  split_ifs <;> rfl

/-! ### The whole line -/

section Lines

variable (P : Platform) (t : Terminfo) (root : DfaNode) (ignoreDefault : Bool)

/-- Without handlers an input inserts its text, or the characters of a custom sequence. -/
theorem inputCalls_inserts {Q : Uchar → Prop} {type : InputType} {buffer : InputBuf}
    {ops : List CursorOp} (htext : type = .text → ∀ c ∈ buffer.text, Q c)
    (hspelling : ignoreDefault = false → ∀ b, ∀ c ∈ spelling b, Q c)
    (h : inputCalls t nrlManipClearCustomTable ignoreDefault type buffer = .ok ops) :
    ∀ op ∈ ops, op.Inserts Q := by
  intro op hop
  cases type with
  | stop =>
    obtain rfl := Except.ok.inj h
    cases hop
  | text =>
    obtain rfl := Except.ok.inj h
    obtain rfl := List.mem_singleton.mp hop
    exact htext rfl
  | escape =>
    obtain rfl := Except.ok.inj h
    obtain ⟨key, -, rfl⟩ := List.mem_map.mp hop
    exact fun c hc => absurd hc List.not_mem_nil
  | customEscape =>
    rw [inputCalls] at h
    dsimp only [nrlManipClearCustomTable] at h
    split at h
    · obtain rfl := Except.ok.inj h
      cases hop
    · rename_i hspell
      split at h
      · cases h
      · obtain rfl := Except.ok.inj h
        obtain ⟨b, -, rfl⟩ := List.mem_map.mp hop
        exact hspelling (by simpa using hspell) b

end Lines

/-- The line has no control character, so what is returned and what is drawn of it, up to a
terminator, is all of it. -/
structure LineData.Whole (P : Platform) (line : LineData) : Prop where
  printable : ∀ c ∈ line.buffer, 0x20 ≤ c ∧ c ≠ 0x7f
  returned : ∀ eof errno, (finishLine P eof line errno).data =
    if eof && line.buffer.length = 0 then none else some (P.utf8Encode line.buffer)
  drawn : ∀ start, cstr ((line.buffer ++ [0]).drop start) = line.buffer.drop start

/-- A byte of a sequence, spelled: in caret form or as the character with its code. -/
def byteSpelling (b : Byte) : List Uchar := caretForm b.toUInt32

theorem caretForm_of_ge {uc : Uchar} (h : 0x80 ≤ uc.toNat) : caretForm uc = [uc] := by
  have hdel : uc ≠ 0x7f := by
    rintro rfl
    exact absurd h (by decide)
  have hprint : uc ≥ 0x20 := UInt32.le_iff_toNat_le.mpr (Nat.le_trans (by decide) h)
  rw [caretForm, if_neg hdel, if_pos hprint]

/-- The sign of a byte is kept. -/
theorem signedChar_of_ge {b : Byte} (h : 0x80 ≤ b.toNat) :
    (signedChar b).toNat = b.toNat + 0xffffff00 := by
  have hneg : ¬ b < 0x80 := fun hlt => Nat.not_lt.mpr h (UInt8.lt_iff_toNat_lt.mp hlt)
  have hbyte := b.toNat_lt
  rw [signedChar, if_neg hneg, UInt32.toNat_add]
  show (b.toNat + 0xffffff00) % 2 ^ 32 = _
  omega

/-- A byte is spelled as it is exactly if it is ASCII, but always at the same length. -/
theorem spelling_cases (b : Byte) :
    (b < 0x80 ∧ spelling b = byteSpelling b) ∨
    (¬ b < 0x80 ∧ spelling b ≠ byteSpelling b ∧ (spelling b).length = (byteSpelling b).length) := by
  by_cases h : b < 0x80
  · exact .inl ⟨h, by rw [spelling_eq, byteSpelling, signedChar, if_pos h]⟩
  · have hge : 0x80 ≤ b.toNat := Nat.not_lt.mp fun hlt => h (UInt8.lt_iff_toNat_lt.mpr hlt)
    have hsigned := signedChar_of_ge hge
    have hspelling : spelling b = [signedChar b] := by
      rw [spelling_eq, caretForm_of_ge (hsigned ▸ Nat.le_add_right_of_le hge)]
    have hbyte : byteSpelling b = [b.toUInt32] := caretForm_of_ge hge
    refine .inr ⟨h, ?_, by rw [hspelling, hbyte]; rfl⟩
    rw [hspelling, hbyte]
    intro heq
    have hnat : (signedChar b).toNat = b.toNat := congrArg UInt32.toNat (List.cons.inj heq).1
    omega

theorem flatMap_spelling_iff (asText : List Byte) :
    asText.flatMap spelling = asText.flatMap byteSpelling ↔ ∀ b ∈ asText, b < 0x80 := by
  induction asText with
  | nil => simp
  | cons b asText ih =>
    rw [List.flatMap_cons, List.flatMap_cons, List.forall_mem_cons]
    rcases spelling_cases b with ⟨hascii, heq⟩ | ⟨hwide, hne, hlength⟩
    · rw [heq, List.append_right_inj, ih]
      exact (and_iff_right hascii).symm
    · exact iff_of_false (fun heq => hne (List.append_inj heq hlength).1) fun h => hwide h.1

/-- Texts inserted one after the other are inserted as a whole. -/
theorem exec_inserts (P : Platform) (t : Terminfo) (texts : List (List Uchar)) {e : Editor}
    (h : e.line.cursor ≤ e.line.buffer.length) : ∃ e',
      Run.exec (CursorOp.perform P t) (texts.map fun text => .edit (.insert text)) e = .ok e' ∧
      e'.line.buffer = e.line.buffer.take e.line.cursor ++ texts.flatten ++
        e.line.buffer.drop e.line.cursor ∧
      e'.line.cursor = e.line.cursor + texts.flatten.length := by
  induction texts generalizing e with
  | nil => exact ⟨e, rfl, by simp, rfl⟩
  | cons text texts ih =>
    have hinsert := nrlManipInsertText_eq P text h
    have htake : (e.line.buffer.take e.line.cursor ++ text).length = e.line.cursor + text.length := by
      simp [h]
    obtain ⟨e', hexec, hbuffer, hcursor⟩ := ih (e := { e with line := { e.line with
      buffer := e.line.buffer.take e.line.cursor ++ text ++ e.line.buffer.drop e.line.cursor
      cursor := e.line.cursor + text.length
      dirty := true } }) (by rw [List.length_append, htake]; exact Nat.le_add_right _ _)
    refine ⟨e', Run.exec_cons_ok.mpr ⟨_, hinsert, hexec⟩, ?_, ?_⟩
    · rw [hbuffer]
      dsimp only
      rw [List.take_left' htake, List.drop_left' htake, List.flatten_cons, List.append_assoc _ text]
    · rw [hcursor, List.flatten_cons, List.length_append, Nat.add_assoc]

/-- The sequence has been inserted byte by byte, as characters that can be encoded. -/
structure LineData.Spells (line : LineData) (asText : List Byte) (line' : LineData) : Prop where
  buffer : line'.buffer = line.buffer.take line.cursor ++ asText.flatMap byteSpelling ++
    line.buffer.drop line.cursor
  cursor : line'.cursor = line.cursor + (asText.flatMap byteSpelling).length
  scalar : ∀ c ∈ (line'.buffer.drop line.cursor).take (line'.cursor - line.cursor), c.isValidChar

theorem byteSpelling_valid (b : Byte) : ∀ c ∈ byteSpelling b, c.isValidChar := by
  intro c hc
  have hbyte := b.toNat_lt
  refine .inl ?_
  rw [byteSpelling, caretForm] at hc
  split_ifs at hc with hdel hprint
  · rcases List.mem_cons.mp hc with rfl | hc
    · decide
    · obtain rfl := List.mem_singleton.mp hc
      decide
  · obtain rfl := List.mem_singleton.mp hc
    show b.toNat < 0xd800
    omega
  · rcases List.mem_cons.mp hc with rfl | hc
    · decide
    · obtain rfl := List.mem_singleton.mp hc
      rw [UInt32.toNat_add]
      show (b.toNat + 0x40) % 2 ^ 32 < 0xd800
      omega

/-- **Custom keys without a handler** are spelled out faithfully exactly if their sequence is
ASCII. -/
theorem spelled_iff (P : Platform) (t : Terminfo) {table : EscapeTable} {buffer : InputBuf}
    {asText : List Byte} {e : Editor} (hunhandled : table buffer.escape.bits = none)
    (hlookup : nrlLookupCustom t buffer.escape.bits = some asText)
    (hcursor : e.line.cursor ≤ e.line.buffer.length) :
    ∃ buffer' e', evalInput P t table false .customEscape buffer e = .ok (buffer', e') ∧
      (e.line.Spells asText e'.line ↔ ∀ b ∈ asText, b < 0x80) := by
  obtain ⟨buffer', -, heval⟩ := evalInput_calls P t table false .customEscape buffer e
  have hcalls : inputCalls t table false .customEscape buffer =
      .ok ((asText.map spelling).map fun text => .edit (.insert text)) := by
    rw [inputCalls, hunhandled, List.map_map]
    dsimp only
    rw [if_neg (by decide), hlookup]
    rfl
  obtain ⟨e', hexec, hbuffer, hcursor'⟩ := exec_inserts P t (asText.map spelling) hcursor
  rw [hcalls, Run.ok_bind, hexec] at heval
  refine ⟨buffer', e', heval, ?_⟩
  rw [← List.flatMap_def] at hbuffer hcursor'
  rw [← flatMap_spelling_iff]
  refine ⟨fun h => ?_, fun h => ?_⟩
  · have hsame := hbuffer.symm.trans h.buffer
    rwa [List.append_assoc, List.append_assoc, List.append_right_inj, List.append_left_inj] at hsame
  · rw [h] at hbuffer hcursor'
    refine ⟨hbuffer, hcursor', fun c hc => ?_⟩
    have htake : (e.line.buffer.take e.line.cursor).length = e.line.cursor := by simp [hcursor]
    rw [hbuffer, hcursor', Nat.add_sub_cancel_left, List.append_assoc, List.drop_left' htake,
      List.take_left' rfl] at hc
    obtain ⟨b, -, hc⟩ := List.mem_flatMap.mp hc
    exact byteSpelling_valid b c hc

/-- An xterm with the eight-bit form of a custom key. -/
def eightBitTerminfo : Terminfo := { xtermTerminfo with customs := [some [0x9b, 65]] }

/-- The keys of an xterm are ASCII. -/
theorem spelled_iff_xterm : ∃ buffer' e', evalInput referencePlatform xtermTerminfo
      nrlManipClearCustomTable false .customEscape { freshBuffer with escape := ⟨4⟩ }
        { line := emptyLine, screen := xtermScreen } = .ok (buffer', e') ∧
    emptyLine.Spells (ascii "\x1bOB") e'.line := by
  have hlookup : nrlLookupCustom xtermTerminfo 4 = some (ascii "\x1bOB") := rfl
  have hcursor : emptyLine.cursor ≤ emptyLine.buffer.length := Nat.le_refl 0
  obtain ⟨buffer', e', heval, hspells⟩ :=
    spelled_iff referencePlatform xtermTerminfo (e := { line := emptyLine, screen := xtermScreen })
      (rfl : nrlManipClearCustomTable ({ freshBuffer with escape := ⟨4⟩ } : InputBuf).escape.bits = none)
      hlookup hcursor
  have hascii : (ascii "\x1bOB").all (fun c => decide (c < 0x80)) = true := by decide
  exact ⟨buffer', e', heval, hspells.mpr fun c hc => by simpa using List.all_eq_true.mp hascii c hc⟩

/-- The control sequence introducer is inserted as no character at all. -/
theorem spelled_eightBit :
    (do
      let (_, screen) ← nrlRenderInit referencePlatform eightBitTerminfo .on 1
        (xtermTyping [[0x9b, 65, 10]])
      let root ← nrlDfaBuild eightBitTerminfo (ascii "xterm") dfaRoot
      let (_, e) ← readLoop referencePlatform eightBitTerminfo root nrlManipClearCustomTable false 3
        freshBuffer { line := emptyLine, screen }
      pure e.line.buffer) = .ok [0xffffff9b, 65] ∧
    [0x9b, 65].flatMap byteSpelling = [0x9b, 65] ∧ ¬ (0xffffff9b : Uchar).isValidChar := by
  refine ⟨?_, by decide, by decide⟩
  decide +kernel

/-! ### Widths -/

def HasWidth (P : Platform) (uc : Uchar) : Prop := 0 ≤ P.ucwidth uc

/-- The two bytes of a C1 code. -/
def C1Bytes (loaded : List Byte) : Prop := ∃ b, loaded = [0xc2, b] ∧ 0x80 ≤ b ∧ b < 0xa0

/-- The faults of the loop but the asserts on widths. -/
def WidthSafe (f : Fault) : Prop := f ≠ .assertion .charWidth ∧ f ≠ .assertion .lineWidth

instance (f : Fault) : Decidable (WidthSafe f) := inferInstanceAs (Decidable (_ ∧ _))

instance : QueryFaults WidthSafe where
  assertion a ha := ⟨fun h => ha (.inr (.inr (.inl (Fault.assertion.inj h)))),
    fun h => ha (.inr (.inr (.inr (Fault.assertion.inj h))))⟩
  outOfBounds := by decide
  uninitialised := by decide
  outOfFuel := by decide
  nullDeref := by decide

section Widths

variable {P : Platform}

/-- The encoding of a C1 code. -/
theorem encode_c1 {c : Char} (h : 0x80 ≤ c.val.toNat) (hlt : c.val.toNat < 0xa0) :
    String.utf8EncodeChar c = [0xc2, UInt8.ofNat c.val.toNat] ∧ c.utf8Size = 2 := by
  rcases Utf8.encode_cases c with ⟨hs, -⟩ | ⟨-, -, hsize, he⟩ | ⟨hs, -⟩ | ⟨hs, -⟩
  · omega
  · have hlead : c.val.toNat / 64 % 0x20 + 0xc0 = 0xc2 := by omega
    have hbyte : c.val.toNat % 0x40 + 0x80 = c.val.toNat := by omega
    rw [he, hlead, hbyte]
    exact ⟨rfl, hsize⟩
  · omega
  · omega

/-- A C1 code is decoded from its two bytes and from nothing else. -/
theorem decoded_c1_iff (hutf8 : P.Utf8Laws) (hstrict : P.StrictLaw) {lead : Byte} {bytes : List Byte}
    (hlength : bytes.length = (P.utf8Inspect lead).following) :
    (0x80 ≤ decoded P (lead :: bytes) ∧ decoded P (lead :: bytes) < 0xa0) ↔ C1Bytes (lead :: bytes) := by
  unfold decoded
  refine ⟨fun h => ?_, fun ⟨b, hloaded, hge, hlt⟩ => ?_⟩
  · by_cases hzero : (P.utf8ParseUchar (ucharBuffer (lead :: bytes))).1 = 0
    · rw [if_pos hzero] at h
      exact absurd h.2 (by decide)
    · obtain ⟨c, hencode, hval⟩ := hstrict lead bytes hlength hzero
      rw [if_neg hzero, hval] at h
      have hge : 0x80 ≤ c.val.toNat := UInt32.le_iff_toNat_le.mp h.1
      have hlt : c.val.toNat < 0xa0 := UInt32.lt_iff_toNat_lt.mp h.2
      have hbyte : (UInt8.ofNat c.val.toNat).toNat = c.val.toNat := Utf8.toNat_ofNat (by omega)
      refine ⟨UInt8.ofNat c.val.toNat, hencode.trans (encode_c1 hge hlt).1, ?_, ?_⟩
      · exact UInt8.le_iff_toNat_le.mpr (hge.trans_eq hbyte.symm)
      · exact UInt8.lt_iff_toNat_lt.mpr (hbyte.trans_lt hlt)
  · have hge' : 0x80 ≤ b.toNat := UInt8.le_iff_toNat_le.mp hge
    have hlt' : b.toNat < 0xa0 := UInt8.lt_iff_toNat_lt.mp hlt
    obtain ⟨c, hval, hnat⟩ := Utf8.char_of_lt b.toNat (by omega)
    obtain ⟨hencode, hsize⟩ := encode_c1 (hnat ▸ hge') (hnat ▸ hlt')
    have hparse := hutf8.parse c
    rw [hencode, hnat, UInt8.ofNat_toNat, hsize, ← hloaded] at hparse
    rw [hparse, if_neg (Nat.succ_ne_zero 1)]
    exact ⟨UInt32.le_iff_toNat_le.mpr (hnat ▸ hge'), UInt32.lt_iff_toNat_lt.mpr (hnat ▸ hlt')⟩

theorem Platform.ControlLaw.nonneg (h : P.ControlLaw) {uc : Uchar} (hne : P.ucwidth uc ≠ -1) :
    HasWidth P uc := by
  have := h.ge uc
  unfold HasWidth
  omega

/-- The text of a read has a width, unless it is a C1 code. -/
theorem text_width_iff (hutf8 : P.Utf8Laws) (hstrict : P.StrictLaw) (hcontrol : P.ControlLaw)
    {lead : Byte} {bytes : List Byte} (hlength : bytes.length = (P.utf8Inspect lead).following) :
    (∀ c ∈ caretForm (decoded P (lead :: bytes)), P.ucwidth c ≠ -1) ↔ ¬ C1Bytes (lead :: bytes) := by
  rw [← decoded_c1_iff hutf8 hstrict hlength, ← caretForm_control]
  simp only [ne_eq, hcontrol.control, not_exists, not_and]

/-- A text whose characters have widths has one, and so has every beginning of it. -/
theorem ucswidth_nonneg (hwidth : P.WidthLaw) {text : List Uchar} (h : ∀ c ∈ text, HasWidth P c)
    (n : Nat) : 0 ≤ P.ucswidth (text.take n) := by
  have htake : ∀ c ∈ text.take n, HasWidth P c := fun c hc => h c (List.mem_of_mem_take hc)
  rw [hwidth _ htake]
  exact List.sum_nonneg fun w hw => by
    obtain ⟨c, hc, rfl⟩ := List.mem_map.mp hw
    exact htake c hc

theorem widthFaults_of_nonneg (hwidth : P.WidthLaw) (hcontrol : P.ControlLaw) {F : Fault → Prop}
    {text : List Uchar} (h : ∀ c ∈ text, HasWidth P c) : WidthFaults P F (text ++ [0]) := by
  have hnul : HasWidth P 0 := hcontrol.nonneg fun h => absurd ((hcontrol.control 0).mp h) (by decide)
  have hall : ∀ c ∈ text ++ [0], HasWidth P c :=
    List.forall_mem_append.mpr ⟨h, List.forall_mem_singleton.mpr hnul⟩
  refine ⟨fun c hc hneg => ?_, fun n hneg => ?_⟩
  · exact absurd (hneg ▸ hall c hc : (0 : Int) ≤ -1) (by decide)
  · exact absurd (hneg ▸ ucswidth_nonneg hwidth hall n : (0 : Int) ≤ -1) (by decide)

end Widths

/-! ### The heads of the loop -/

section Heads

variable (P : Platform) (t : Terminfo) (root : DfaNode) (table : EscapeTable) (ignoreDefault : Bool)

/-- The states in which the loop is about to read. A resize may be notified in any of them. -/
inductive AtHead (screen : Screen) : InputBuf → Editor → Prop
  | start : AtHead screen freshBuffer { line := emptyLine, screen }
  | notify {buffer : InputBuf} {e : Editor} (h : AtHead screen buffer e) :
      AtHead screen buffer { e with screen := nrlRenderNotifyResize e.screen }
  | round {buffer buffer' : InputBuf} {e e' : Editor} {r : Round} (h : AtHead screen buffer e)
      (hround : loopRound P t root table ignoreDefault (buffer, e) = .ok (r, (buffer', e')))
      (hstop : r.type ≠ .stop) : AtHead screen buffer' e'

/-- The loop fails in one of its rounds, or runs out of them. -/
theorem readLoop_fails {screen : Screen} {fuel : Nat} {buffer : InputBuf} {e : Editor} {f : Fault}
    (hhead : AtHead P t root table ignoreDefault screen buffer e)
    (h : readLoop P t root table ignoreDefault fuel buffer e = .error f) :
    f = .outOfFuel ∨ ∃ buffer' e', AtHead P t root table ignoreDefault screen buffer' e' ∧
      loopRound P t root table ignoreDefault (buffer', e') = .error f := by
  induction fuel generalizing buffer e with
  | zero => exact .inl (Except.error.inj h).symm
  | succ fuel ih =>
    rw [readLoop] at h
    rcases Run.bind_eq_error.mp h with hread | ⟨⟨type, buffer₁, io⟩, hread, h⟩
    · exact .inr ⟨buffer, e, hhead, by rw [loopRound, hread]; rfl⟩
    · dsimp only at h
      by_cases hstop : type = .stop
      · rw [if_pos hstop] at h
        cases h
      · have hround : loopRound P t root table ignoreDefault (buffer, e) =
            (evalRound P t table ignoreDefault type buffer₁
              { e with screen := { e.screen with io } }).map fun s => (⟨type, buffer₁, e.line⟩, s) := by
          rw [loopRound, hread, Run.ok_bind]
          dsimp only
          rw [if_neg hstop]
          rfl
        rw [if_neg hstop] at h
        rcases Run.bind_eq_error.mp h with heval | ⟨⟨buffer₂, e₂⟩, heval, h⟩
        · exact .inr ⟨buffer, e, hhead, by rw [hround, heval]; rfl⟩
        · exact ih (hhead.round (r := ⟨type, buffer₁, e.line⟩) (by rw [hround, heval]; rfl) hstop) h

end Heads

section Displayable

variable (P : Platform) (t : Terminfo) (root : DfaNode)

/-- All widths are there in this round: those of the line, those of what is inserted and
those the renderer asserts. -/
structure Displayable (buffer : InputBuf) (e : Editor) : Prop where
  line : ∀ c ∈ e.line.buffer, 0 ≤ P.ucwidth c
  widths : ∀ n, 0 ≤ P.ucswidth (e.line.buffer.take n)
  inserted : ∀ buffer' io, nrlIoRead P root buffer e.screen.io = .ok (.text, buffer', io) →
    ∀ c ∈ buffer'.text, P.ucwidth c ≠ -1
  asserted : ∀ f, loopRound P t root nrlManipClearCustomTable true (buffer, e) = .error f →
    f ≠ .assertion .charWidth ∧ f ≠ .assertion .lineWidth

variable {P t root}

/-- The step: a round that reads no C1 code keeps the widths of the line. -/
theorem loopRound_widths (hutf8 : P.Utf8Laws) (hstrict : P.StrictLaw) (hwidth : P.WidthLaw)
    (hcontrol : P.ControlLaw) {buffer : InputBuf} {e : Editor}
    (hline : e.line.Holds (HasWidth P))
    (hread : ∀ loaded, loadedBytes P root buffer e.screen.io = .ok (some loaded) → ¬ C1Bytes loaded) :
    Ends WidthSafe (fun r => r.2.2.line.Holds (HasWidth P))
      (loopRound P t root nrlManipClearCustomTable true (buffer, e)) := by
  have hcall : ∀ (op : CursorOp) (e : Editor), op.Inserts (HasWidth P) →
      e.line.Holds (HasWidth P) →
      Ends WidthSafe (fun e' => e'.line.Holds (HasWidth P)) (op.perform P t e) := by
    intro op e hop he
    exact CursorOp.perform_chars P t (by decide) (by decide) (by decide)
      (fun text => widthFaults_of_nonneg hwidth hcontrol) hop he
  have hread' := nrlIoRead_ends (F := WidthSafe) P root buffer e.screen.io
  rw [loopRound]
  cases hok : nrlIoRead P root buffer e.screen.io with
  | error f => exact .error (hread'.of_error hok)
  | ok r =>
    obtain ⟨type, buffer₁, io⟩ := r
    dsimp only [Run.ok_bind]
    split
    · exact .ok hline
    · have hops : Ends WidthSafe (fun ops => ∀ op ∈ ops, op.Inserts (HasWidth P))
          (inputCalls t nrlManipClearCustomTable true type buffer₁) := by
        refine ⟨fun hops => inputCalls_inserts t true (fun htype => ?_) (fun h => absurd h (by decide)) hops,
          fun hf => ?_⟩
        · subst htype
          obtain ⟨lead, bytes, hloaded, hlength, htext⟩ := nrlIoRead_text P hok
          rw [htext]
          exact fun c hc => hcontrol.nonneg
            ((text_width_iff hutf8 hstrict hcontrol hlength).mpr (hread _ hloaded) c hc)
        · rw [(inputCalls_error t nrlManipClearCustomTable true hf).1]
          decide
      obtain ⟨buffer', -, hround⟩ := evalRound_calls P t nrlManipClearCustomTable true type buffer₁
        { e with screen := { e.screen with io } }
      rw [hround]
      refine Ends.bind (Q := fun s => s.2.line.Holds (HasWidth P)) (.map ?_) fun _ h => .ok h
      refine hops.bind fun ops hins => Ends.bind (Q := fun e' : Editor => e'.line.Holds (HasWidth P))
        (Run.exec_ends hcall hins hline) fun e₁ h₁ => ?_
      split
      · exact hcall (.edit .redraw) e₁ (fun c hc => absurd hc List.not_mem_nil) h₁
      · exact .ok h₁

/-- **Every character stored has a width**, in all heads of the loop, exactly if in none of
them the two bytes of a C1 code are loaded. -/
theorem displayable_iff (hutf8 : P.Utf8Laws) (hstrict : P.StrictLaw) (hwidth : P.WidthLaw)
    (hcontrol : P.ControlLaw) (t : Terminfo) (root : DfaNode) (screen : Screen) :
    ((∀ buffer e, AtHead P t root nrlManipClearCustomTable true screen buffer e →
        Displayable P t root buffer e) ∧
      ∀ fuel f, readLoop P t root nrlManipClearCustomTable true fuel freshBuffer
          { line := emptyLine, screen } = .error f →
        f ≠ .assertion .charWidth ∧ f ≠ .assertion .lineWidth) ↔
      ∀ buffer e, AtHead P t root nrlManipClearCustomTable true screen buffer e →
        ∀ loaded, loadedBytes P root buffer e.screen.io = .ok (some loaded) → ¬ C1Bytes loaded := by
  refine ⟨fun h buffer e hhead loaded hloaded hc1 => ?_, fun h => ?_⟩
  · -- the code is inserted as it is
    rcases nrlIoRead_loaded P root buffer e.screen.io with ⟨f, hnone, -⟩ |
      ⟨type, b, s₁, hnone, -⟩ | ⟨lead, bytes, b, s₁, hsome, hlength, hread⟩
    · exact nomatch hnone.symm.trans hloaded
    · exact nomatch hnone.symm.trans hloaded
    · obtain rfl := Option.some.inj (Except.ok.inj (hsome.symm.trans hloaded))
      have hc1' := (decoded_c1_iff hutf8 hstrict hlength).mpr hc1
      have hstop : ¬ (decoded P (lead :: bytes) = 10 ∨ decoded P (lead :: bytes) = charEot.toUInt32) := by
        rintro (hstop | hstop) <;> rw [hstop] at hc1' <;> exact absurd hc1'.1 (by decide)
      rw [classify_eq, if_neg hstop] at hread
      exact absurd hc1 ((text_width_iff hutf8 hstrict hcontrol hlength).mp
        ((h.1 buffer e hhead).inserted _ _ hread))
  · have hround : ∀ {buffer e}, AtHead P t root nrlManipClearCustomTable true screen buffer e →
        e.line.Holds (HasWidth P) →
        Ends WidthSafe (fun r => r.2.2.line.Holds (HasWidth P))
          (loopRound P t root nrlManipClearCustomTable true (buffer, e)) := fun hhead hline =>
      loopRound_widths hutf8 hstrict hwidth hcontrol hline (h _ _ hhead)
    have hline : ∀ buffer e, AtHead P t root nrlManipClearCustomTable true screen buffer e →
        e.line.Holds (HasWidth P) := by
      intro buffer e hhead
      induction hhead with
      | start => exact ⟨Nat.le_refl 0, fun c hc => absurd hc List.not_mem_nil⟩
      | notify _ ih => exact ih
      | round hhead hok _ ih => exact (hround hhead ih).of_ok hok
    refine ⟨fun buffer e hhead => ⟨(hline _ _ hhead).chars, ucswidth_nonneg hwidth (hline _ _ hhead).chars,
      fun buffer' io hread => ?_, fun f hf => (hround hhead (hline _ _ hhead)).of_error hf⟩, fun fuel f hf => ?_⟩
    · obtain ⟨lead, bytes, hloaded, hlength, htext⟩ := nrlIoRead_text P hread
      rw [htext]
      exact (text_width_iff hutf8 hstrict hcontrol hlength).mpr (h _ _ hhead _ hloaded)
    · rcases readLoop_fails P t root _ _ .start hf with rfl | ⟨buffer, e, hhead, hf⟩
      · exact ⟨nofun, nofun⟩
      · exact (hround hhead (hline _ _ hhead)).of_error hf

end Displayable

/-- Text with more behind it changes the line only. -/
theorem evalRound_text_more {P : Platform} {t : Terminfo} {table : EscapeTable} {ignoreDefault : Bool}
    {buffer buffer' : InputBuf} {e e' : Editor} (hmore : buffer.more = true)
    (h : evalRound P t table ignoreDefault .text buffer e = .ok (buffer', e')) :
    buffer' = buffer ∧ e'.screen = e.screen := by
  obtain ⟨⟨buffer₁, e₁⟩, hinput, h⟩ := Run.bind_eq_ok.mp h
  obtain ⟨e₂, hinsert, hinput⟩ := Run.bind_eq_ok.mp hinput
  obtain ⟨rfl, rfl⟩ := Prod.mk.inj (Except.ok.inj hinput)
  obtain ⟨_, -, hinsert⟩ := Run.bind_eq_ok.mp hinsert
  obtain rfl := Except.ok.inj hinsert
  dsimp only at h
  rw [hmore] at h
  obtain ⟨rfl, rfl⟩ := Prod.mk.inj (Except.ok.inj h)
  exact ⟨rfl, rfl⟩

/-- An xterm on which `a` and a newline come with one read. -/
def typedScreen : Screen :=
  { xtermScreen with io := { xtermScreen.io with world := { xtermScreen.io.world with
    reads := [.data [97, 10]] } } }

theorem displayable_iff_xterm : ∃ root, nrlDfaBuild xtermTerminfo (ascii "xterm") dfaRoot = .ok root ∧
    (∀ buffer e, AtHead referencePlatform xtermTerminfo root nrlManipClearCustomTable true typedScreen
        buffer e → Displayable referencePlatform xtermTerminfo root buffer e) ∧
      ∀ fuel f, readLoop referencePlatform xtermTerminfo root nrlManipClearCustomTable true fuel
          freshBuffer { line := emptyLine, screen := typedScreen } = .error f →
        f ≠ .assertion .charWidth ∧ f ≠ .assertion .lineWidth := by
  have hok : (nrlDfaBuild xtermTerminfo (ascii "xterm") dfaRoot).map (fun root =>
      decide (loadedBytes referencePlatform root freshBuffer typedScreen.io = .ok (some [97]) ∧
        (nrlIoRead referencePlatform root freshBuffer typedScreen.io).map (fun r =>
          decide (r.1 = .text ∧ r.2.1.more = true ∧
            loadedBytes referencePlatform root r.2.1 r.2.2 = .ok (some [10]) ∧
            (nrlIoRead referencePlatform root r.2.1 r.2.2).map (fun r => r.1) = .ok .stop)) =
          .ok true)) = .ok true := by
    decide +kernel
  obtain ⟨root, hroot, hok⟩ := Run.map_eq_ok.mp hok
  obtain ⟨hfirst, hok⟩ := of_decide_eq_true hok
  obtain ⟨⟨type, buffer₁, io₁⟩, hread, hok⟩ := Run.map_eq_ok.mp hok
  obtain ⟨htype, hmore, hsecond, hok⟩ := of_decide_eq_true hok
  obtain ⟨⟨type₂, buffer₂, io₂⟩, hread₂, hstop⟩ := Run.map_eq_ok.mp hok
  dsimp only at htype hmore hsecond hread₂ hstop
  subst htype hstop
  have hheads : ∀ buffer e, AtHead referencePlatform xtermTerminfo root nrlManipClearCustomTable true
      typedScreen buffer e → (buffer = freshBuffer ∧ e.screen.io = typedScreen.io) ∨
        (buffer = buffer₁ ∧ e.screen.io = io₁) := by
    intro buffer e hhead
    induction hhead with
    | start => exact .inl ⟨rfl, rfl⟩
    | notify _ ih => exact ih
    | @round buffer buffer' e e' r _ hround hstop ih =>
      rcases ih with ⟨rfl, hio⟩ | ⟨rfl, hio⟩
      · rw [loopRound, hio, hread, Run.ok_bind] at hround
        obtain ⟨⟨_, _⟩, heval, hround⟩ := Run.bind_eq_ok.mp hround
        obtain ⟨-, hround⟩ := Prod.mk.inj (Except.ok.inj hround)
        obtain ⟨rfl, rfl⟩ := Prod.mk.inj hround
        obtain ⟨rfl, hscreen⟩ := evalRound_text_more hmore heval
        exact .inr ⟨rfl, congrArg Screen.io hscreen⟩
      · rw [loopRound, hio, hread₂, Run.ok_bind] at hround
        obtain ⟨rfl, -⟩ := Prod.mk.inj (Except.ok.inj hround)
        exact absurd rfl hstop
  refine ⟨root, hroot, (displayable_iff referencePlatform_utf8 referencePlatform_strict
    referencePlatform_width referencePlatform_control xtermTerminfo root typedScreen).mpr ?_⟩
  intro buffer e hhead loaded hloaded hc1
  obtain ⟨b, rfl, -⟩ := hc1
  rcases hheads buffer e hhead with ⟨rfl, hio⟩ | ⟨rfl, hio⟩
  · rw [hio, hfirst] at hloaded
    cases hloaded
  · rw [hio, hsecond] at hloaded
    cases hloaded

/-- The C1 code of a next line is typed: the width of the line it is redrawn with is negative. -/
theorem displayable_nextLine :
    xtermLoop [[0xc2, 0x85]] (fun root e => (readLoop referencePlatform xtermTerminfo root
      nrlManipClearCustomTable true 3 freshBuffer e).map fun r => r.2.line.buffer) =
      .error (.assertion .lineWidth) := by
  decide +kernel

end Nanorl
