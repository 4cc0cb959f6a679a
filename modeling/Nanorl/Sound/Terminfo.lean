import Mathlib.Data.List.Forall2
import Nanorl.Model.Terminfo

/-!
# Nanorl.Sound.Terminfo

`parse` on arbitrary files, and on compiled descriptions.

`parse` trusts the file: `parse_safe_iff` says on which files it stays within what
the file supplies. On a description serialised in the compiled format it finds
every string at its slot (`parse_serialise`), wherever the string table has it.
-/

namespace Nanorl

/-! ### Sections of a file -/

/-- The slots `parse` looks at. -/
def requestedIndices : List Nat :=
  inputSeqIndices ++ outputSeqIndices ++ specialSeqIndices ++ customSeqIndices

namespace File

variable (f : File)

/-- A header word, zero where the file is too short. -/
def word (k : Nat) : Nat := (word16 (f.content.take 12) k).getD 0

/-- One of the two magic numbers. -/
def HasMagic : Prop := f.word 0 = magicInt16 ∨ f.word 0 = magicInt32

instance : Decidable f.HasMagic := inferInstanceAs (Decidable (_ ∨ _))

/-- Where the string offsets begin, counted from the end of the header. -/
def stringStart : Nat :=
  (f.word 1 + f.word 2) + (f.word 1 + f.word 2) % 2 +
    (if f.word 0 = magicInt16 then 2 else 4) * f.word 3

/-- The bytes of the string offsets. -/
def strings : List Byte := (f.content.drop (12 + f.stringStart)).take (2 * f.word 4)

/-- The string table. -/
def table : List Byte :=
  (f.content.drop (12 + f.stringStart + 2 * f.word 4)).take (f.word 5)

/-- The header words that are used were read: the first four, on a seekable file
the fifth, and the sixth unless the string offsets are missing anyway. -/
structure HeaderSuffices : Prop where
  magic : 2 ≤ f.content.length
  sizes : f.HasMagic → 8 ≤ f.content.length
  strings : f.HasMagic → f.seekable = true →
    10 ≤ f.content.length ∧ (f.word 4 = 0 → 12 ≤ f.content.length)

/-- Both string sections are complete. -/
def HasSections : Prop :=
  12 ≤ f.content.length ∧ 2 * f.word 4 ≤ f.content.length - (12 + f.stringStart) ∧
    f.word 5 ≤ f.content.length - (12 + f.stringStart + 2 * f.word 4)

instance : Decidable f.HasSections := inferInstanceAs (Decidable (_ ∧ _))

/-- There are slots up to that of `user7`, and behind every requested offset there
is a terminator. -/
structure Covers : Prop where
  slots : 295 ≤ f.word 4
  terminated : ∀ i ∈ requestedIndices, ∀ w, word16 f.strings i = some w → 0 ≤ int16 w →
    (0 : Byte) ∈ f.table.drop w

end File

/-! ### The header -/

theorem word16_eq_none {bytes : List Byte} {k : Nat} :
    word16 bytes k = none ↔ bytes.length < 2 * k + 2 := Words.wordAt_eq_none

theorem headerWord_eq {f : File} {k : Nat} (hk : k < 6) (h : 2 * k + 2 ≤ f.content.length) :
    headerWord (f.content.take 12) k = .ok (f.word k) := by
  unfold headerWord File.word
  cases hw : word16 (f.content.take 12) k with
  | some w => rfl
  | none =>
    rw [word16_eq_none, List.length_take] at hw
    omega

theorem headerWord_ok {f : File} {k w : Nat} (h : headerWord (f.content.take 12) k = .ok w) :
    2 * k + 2 ≤ f.content.length ∧ f.word k = w := by
  unfold headerWord at h
  unfold File.word
  cases hw : word16 (f.content.take 12) k with
  | none =>
    rw [hw] at h
    cases h
  | some w' =>
    rw [hw] at h
    obtain rfl := Except.ok.inj h
    refine ⟨?_, rfl⟩
    have hne : ¬ (f.content.take 12).length < 2 * k + 2 := fun hlt => by
      rw [word16_eq_none.mpr hlt] at hw
      cases hw
    rw [List.length_take] at hne
    omega

/-! ### Lookups -/

section Lookup

variable {strings table : List Byte} {count : Nat}

/-- A lookup stays inside when its slot exists and its offset is terminated. -/
theorem lookupString_safe_iff (hlen : strings.length = 2 * count) (i : Nat) :
    (∃ entry, lookupString strings table count i = .ok entry) ↔
      i < count ∧ ∀ w, word16 strings i = some w → 0 ≤ int16 w → (0 : Byte) ∈ table.drop w := by
  unfold lookupString
  by_cases hi : count ≤ i
  · rw [if_pos hi]
    constructor
    · intro h
      obtain ⟨entry, h⟩ := h
      cases h
    · intro h
      obtain ⟨hlt, -⟩ := h
      omega
  · rw [if_neg hi]
    obtain ⟨w, hw⟩ : ∃ w, word16 strings i = some w := by
      cases hw : word16 strings i with
      | some w => exact ⟨w, rfl⟩
      | none =>
        rw [word16_eq_none] at hw
        omega
    rw [hw]
    dsimp only
    by_cases hneg : int16 w < 0
    · rw [if_pos hneg]
      refine ⟨fun _ => ⟨by omega, fun w' hw' hpos => ?_⟩, fun _ => ⟨none, rfl⟩⟩
      obtain rfl := Option.some.inj hw'
      omega
    · rw [if_neg hneg]
      by_cases hzero : (0 : Byte) ∈ table.drop w
      · rw [if_pos hzero]
        refine ⟨fun _ => ⟨by omega, fun w' hw' _ => ?_⟩, fun _ => by split <;> exact ⟨_, rfl⟩⟩
        obtain rfl := Option.some.inj hw'
        exact hzero
      · rw [if_neg hzero]
        constructor
        · intro h
          obtain ⟨entry, h⟩ := h
          cases h
        · intro h
          obtain ⟨-, h⟩ := h
          exact absurd (h w rfl (by omega)) hzero

theorem lookupStrings_safe_iff (indices : List Nat) :
    (∃ entries, lookupStrings strings table count indices = .ok entries) ↔
      ∀ i ∈ indices, ∃ entry, lookupString strings table count i = .ok entry := by
  induction indices with
  | nil => exact ⟨fun _ i hi => absurd hi List.not_mem_nil, fun _ => ⟨[], rfl⟩⟩
  | cons i indices ih =>
    rw [List.forall_mem_cons, ← ih]
    constructor
    · intro h
      obtain ⟨entries, h⟩ := h
      obtain ⟨entry, hentry, h⟩ := Run.bind_eq_ok.mp h
      obtain ⟨rest, hrest, -⟩ := Run.bind_eq_ok.mp h
      exact ⟨⟨entry, hentry⟩, ⟨rest, hrest⟩⟩
    · intro h
      obtain ⟨⟨entry, hentry⟩, ⟨rest, hrest⟩⟩ := h
      refine ⟨entry :: rest, ?_⟩
      rw [lookupStrings, hentry, Run.ok_bind, hrest]
      rfl

theorem lookupStrings_length {indices : List Nat} {entries : List (Option (List Byte))}
    (h : lookupStrings strings table count indices = .ok entries) : entries.length = indices.length := by
  induction indices generalizing entries with
  | nil =>
    obtain rfl := Except.ok.inj h
    rfl
  | cons i indices ih =>
    obtain ⟨entry, -, h⟩ := Run.bind_eq_ok.mp h
    obtain ⟨rest, hrest, h⟩ := Run.bind_eq_ok.mp h
    obtain rfl := Except.ok.inj h
    exact congrArg (· + 1) (ih hrest)

/-- Lookups that are known one by one. -/
theorem lookupStrings_eq {value : Nat → Option (List Byte)} {indices : List Nat}
    (h : ∀ i ∈ indices, lookupString strings table count i = .ok (value i)) :
    lookupStrings strings table count indices = .ok (indices.map value) := by
  induction indices with
  | nil => rfl
  | cons i indices ih =>
    rw [List.forall_mem_cons] at h
    rw [lookupStrings, h.1, Run.ok_bind, ih h.2]
    rfl

end Lookup

theorem lookupTables_safe_iff (strings table : List Byte) (count : Nat) (t : Terminfo) :
    (∃ r, lookupTables strings table count t = .ok r) ↔
      ∀ i ∈ requestedIndices, ∃ entry, lookupString strings table count i = .ok entry := by
  have happend : (∀ i ∈ requestedIndices, ∃ entry, lookupString strings table count i = .ok entry) ↔
      (∃ r, lookupStrings strings table count inputSeqIndices = .ok r) ∧
      (∃ r, lookupStrings strings table count outputSeqIndices = .ok r) ∧
      (∃ r, lookupStrings strings table count specialSeqIndices = .ok r) ∧
      (∃ r, lookupStrings strings table count customSeqIndices = .ok r) := by
    simp only [lookupStrings_safe_iff, requestedIndices, List.forall_mem_append, and_assoc]
  rw [happend]
  constructor
  · intro h
    obtain ⟨r, h⟩ := h
    obtain ⟨inputs, hinputs, h⟩ := Run.bind_eq_ok.mp h
    obtain ⟨outputs, houtputs, h⟩ := Run.bind_eq_ok.mp h
    obtain ⟨specials, hspecials, h⟩ := Run.bind_eq_ok.mp h
    obtain ⟨customs, hcustoms, -⟩ := Run.bind_eq_ok.mp h
    exact ⟨⟨_, hinputs⟩, ⟨_, houtputs⟩, ⟨_, hspecials⟩, ⟨_, hcustoms⟩⟩
  · intro h
    obtain ⟨⟨inputs, hinputs⟩, ⟨outputs, houtputs⟩, ⟨specials, hspecials⟩,
      ⟨customs, hcustoms⟩⟩ := h
    refine ⟨(true, { t with inputs, outputs, specials, customs }), ?_⟩
    rw [lookupTables, hinputs, Run.ok_bind, houtputs, Run.ok_bind, hspecials, Run.ok_bind,
      hcustoms, Run.ok_bind]
    rfl

/-- The tables are as they were, or all four have been filled. -/
def Terminfo.Fills (t t' : Terminfo) : Prop :=
  t' = t ∨ ∃ inputs outputs specials customs, specials.length = tisCount ∧
    t' = { t with inputs, outputs, specials, customs }

theorem Terminfo.Fills.attemptedLoad {t t' : Terminfo} (h : t.Fills t') :
    t'.attemptedLoad = t.attemptedLoad := by
  rcases h with rfl | ⟨_, _, _, _, -, rfl⟩ <;> rfl

/-- `parse` touches nothing but the four tables. -/
theorem parse_fills (f : File) (t : Terminfo) :
    Run.Ends (fun _ => True) (fun r => t.Fills r.2) (parse f t) := by
  have hfail : Run.Ends (fun _ => True) (fun r => t.Fills r.2)
      (pure (false, t) : Except Fault (Bool × Terminfo)) := .ok (.inl rfl)
  have hlength : ∀ strings table count, Run.Ends (fun _ => True)
      (fun entries => entries.length = tisCount)
      (lookupStrings strings table count specialSeqIndices) :=
    fun _ _ _ => ⟨lookupStrings_length, fun _ => trivial⟩
  unfold parse
  refine (Run.Ends.any _).bind fun magic _ => ?_
  by_cases hmagic : magic = magicInt16 ∨ magic = magicInt32
  · rw [if_pos hmagic]
    refine (Run.Ends.any _).bind fun names _ => ?_
    refine (Run.Ends.any _).bind fun booleans _ => ?_
    refine (Run.Ends.any _).bind fun numbers _ => ?_
    cases f.seekable with
    | false => exact hfail
    | true =>
      refine (Run.Ends.any _).bind fun count _ => ?_
      split
      · exact hfail
      · refine (Run.Ends.any _).bind fun tableSize _ => ?_
        split
        · exact hfail
        · refine (Run.Ends.any _).bind fun inputs _ => ?_
          refine (Run.Ends.any _).bind fun outputs _ => ?_
          refine (hlength _ _ _).bind fun specials hspecials => ?_
          refine (Run.Ends.any _).bind fun customs _ => ?_
          exact .ok (.inr ⟨inputs, outputs, specials, customs, hspecials, rfl⟩)
  · rw [if_neg hmagic]
    exact hfail

/-! ### Safety -/

section Parse

variable {f : File} {t : Terminfo}

theorem freadAll_eq (content : List Byte) (pos size count : Nat) :
    freadAll content pos size count =
      if size * count ≤ content.length - pos then
        some ((content.drop pos).take (size * count)) else none := rfl

theorem parse_of_noMagic (h : 2 ≤ f.content.length) (hmagic : ¬ f.HasMagic) :
    parse f t = .ok (false, t) := by
  rw [parse]
  dsimp only
  rw [headerWord_eq (by decide) h, Run.ok_bind]
  exact if_neg hmagic

theorem parse_of_magic (h : 8 ≤ f.content.length) (hmagic : f.HasMagic) :
    parse f t = if f.seekable then
      parseStrings f.content (f.content.take 12) ((f.content.take 12).length + f.stringStart) t
      else .ok (false, t) := by
  rw [parse]
  dsimp only
  rw [headerWord_eq (k := 0) (by decide) (by omega), Run.ok_bind]
  refine (if_pos hmagic).trans ?_
  rw [headerWord_eq (k := 1) (by decide) (by omega), Run.ok_bind,
    headerWord_eq (k := 2) (by decide) (by omega), Run.ok_bind,
    headerWord_eq (k := 3) (by decide) (by omega), Run.ok_bind]
  rfl

/-- A `parse` that returns has read the header words it has used. -/
theorem parse_ok_length {r : Bool × Terminfo} (h : parse f t = .ok r) :
    2 ≤ f.content.length ∧ (f.HasMagic → 8 ≤ f.content.length) := by
  obtain ⟨magic, hmagic, h⟩ := Run.bind_eq_ok.mp h
  obtain ⟨hlen, rfl⟩ := headerWord_ok hmagic
  refine ⟨hlen, fun hm => ?_⟩
  replace h := (if_pos hm).symm.trans h
  obtain ⟨names, -, h⟩ := Run.bind_eq_ok.mp h
  obtain ⟨booleans, -, h⟩ := Run.bind_eq_ok.mp h
  obtain ⟨numbers, hnumbers, -⟩ := Run.bind_eq_ok.mp h
  exact (headerWord_ok hnumbers).1

/-- Behind the header, `parse` either misses a section or does its lookups. -/
theorem parseStrings_eq (h : 12 ≤ f.content.length) :
    parseStrings f.content (f.content.take 12) ((f.content.take 12).length + f.stringStart) t =
      if f.HasSections then lookupTables f.strings f.table (f.word 4) t else .ok (false, t) := by
  have htake : (f.content.take 12).length = 12 := by
    rw [List.length_take]
    omega
  rw [parseStrings, headerWord_eq (by decide) (by omega), Run.ok_bind, htake, freadAll_eq]
  by_cases hstrings : 2 * f.word 4 ≤ f.content.length - (12 + f.stringStart)
  · rw [if_pos hstrings]
    dsimp only
    rw [headerWord_eq (by decide) (by omega), Run.ok_bind, freadAll_eq, Nat.one_mul]
    by_cases htable : f.word 5 ≤ f.content.length - (12 + f.stringStart + 2 * f.word 4)
    · rw [if_pos htable, if_pos ⟨h, hstrings, htable⟩]
      rfl
    · rw [if_neg htable, if_neg fun hs => htable hs.2.2]
      rfl
  · rw [if_neg hstrings, if_neg fun hs => hstrings hs.2.1]
    rfl

/-- Behind a header that has ended early, `parse` is safe if it misses the string
offsets. -/
theorem parseStrings_short {pos : Nat} (h : f.content.length < 12) (hpos : f.content.length ≤ pos) :
    (∃ r, parseStrings f.content (f.content.take 12) pos t = .ok r) ↔
      10 ≤ f.content.length ∧ f.word 4 ≠ 0 := by
  have hempty : f.content.length - pos = 0 := by omega
  constructor
  · intro h
    obtain ⟨r, hr⟩ := h
    obtain ⟨count, hcount, hr⟩ := Run.bind_eq_ok.mp hr
    obtain ⟨hlen, rfl⟩ := headerWord_ok hcount
    refine ⟨hlen, fun hzero => ?_⟩
    rw [freadAll_eq, hempty, hzero, if_pos (Nat.le_refl 0)] at hr
    obtain ⟨tableSize, hsize, -⟩ := Run.bind_eq_ok.mp hr
    have := (headerWord_ok hsize).1
    omega
  · intro h
    obtain ⟨hlen, hne⟩ := h
    refine ⟨(false, t), ?_⟩
    rw [parseStrings, headerWord_eq (by decide) hlen, Run.ok_bind, freadAll_eq, hempty,
      if_neg (by omega)]
    rfl

theorem lookups_safe_iff (h : f.HasSections) :
    (∃ r, lookupTables f.strings f.table (f.word 4) t = .ok r) ↔ f.Covers := by
  have hlen : f.strings.length = 2 * f.word 4 := by
    rw [File.strings, List.length_take, List.length_drop]
    have := h.2.1
    omega
  have hle : ∀ i ∈ requestedIndices, i < 295 := by decide
  simp only [lookupTables_safe_iff, lookupString_safe_iff hlen]
  constructor
  · intro hall
    exact ⟨(hall 294 (by decide)).1, fun i hi => (hall i hi).2⟩
  · intro hcovers i hi
    exact ⟨(hle i hi).trans_le hcovers.slots, hcovers.terminated i hi⟩

/-- `parse` returns, having left no part of the file, exactly on the files whose
header suffices and whose sections, if they are complete, cover the lookups. -/
theorem parse_safe_iff (f : File) (t : Terminfo) :
    (∃ r, parse f t = .ok r) ↔
      f.HeaderSuffices ∧ (f.HasMagic → f.seekable = true → f.HasSections → f.Covers) := by
  by_cases hsizes : 2 ≤ f.content.length ∧ (f.HasMagic → 8 ≤ f.content.length)
  case neg =>
    exact ⟨fun ⟨_, h⟩ => absurd (parse_ok_length h) hsizes,
      fun h => absurd ⟨h.1.magic, h.1.sizes⟩ hsizes⟩
  obtain ⟨hlen, hsizes⟩ := hsizes
  by_cases hmagic : f.HasMagic
  case neg =>
    exact ⟨fun _ => ⟨⟨hlen, hsizes, fun h => absurd h hmagic⟩, fun h => absurd h hmagic⟩,
      fun _ => ⟨_, parse_of_noMagic hlen hmagic⟩⟩
  rw [parse_of_magic (hsizes hmagic) hmagic]
  by_cases hseek : f.seekable
  case neg =>
    rw [if_neg hseek]
    exact ⟨fun _ => ⟨⟨hlen, hsizes, fun _ h => absurd h hseek⟩, fun _ h => absurd h hseek⟩,
      fun _ => ⟨_, rfl⟩⟩
  rw [if_pos hseek]
  by_cases hfull : 12 ≤ f.content.length
  · -- the whole header is there
    have hheader : f.HeaderSuffices := ⟨hlen, hsizes, fun _ _ => ⟨by omega, fun _ => hfull⟩⟩
    rw [parseStrings_eq hfull]
    by_cases hsections : f.HasSections
    · rw [if_pos hsections, lookups_safe_iff hsections]
      exact ⟨fun h => ⟨hheader, fun _ _ _ => h⟩, fun h => h.2 hmagic hseek hsections⟩
    · rw [if_neg hsections]
      exact ⟨fun _ => ⟨hheader, fun _ _ h => absurd h hsections⟩, fun _ => ⟨_, rfl⟩⟩
  · have htake : (f.content.take 12).length = f.content.length := by
      rw [List.length_take]
      omega
    rw [parseStrings_short (by omega) (by omega)]
    constructor
    · intro h
      obtain ⟨hten, hne⟩ := h
      exact ⟨⟨hlen, hsizes, fun _ _ => ⟨hten, fun h => absurd h hne⟩⟩,
        fun _ _ h => absurd h.1 hfull⟩
    · intro h
      obtain ⟨hheader, -⟩ := h
      obtain ⟨hten, hzero⟩ := hheader.strings hmagic hseek
      exact ⟨hten, fun h => hfull (hzero h)⟩

/-- A header alone, with no strings at all: slot 79 is looked at all the same. -/
theorem parse_noStrings :
    parse { content := [0o32, 0o1, 0, 0, 0, 0, 0, 0, 0, 0, 0, 0], seekable := true }
      Terminfo.unloaded = .error .outOfBounds := by decide +kernel

end Parse

/-! ### The compiled format -/

/-- A string capability of a description. -/
inductive Capability
  | absent
  | cancelled
  | string (text : List Byte) (nulFree : (0 : Byte) ∉ text)

/-- The string a lookup is to find: none if it is absent, cancelled or empty. -/
def Capability.found : Capability → Option (List Byte)
  | .string text _ => if text = [] then none else some text
  | _ => none

/-- A terminal description as the format knows it. The sizes of its sections are
16-bit words, and the string section goes up to `user7` at least. -/
structure Description where
  names : List Byte
  booleans : List Byte
  /-- The numbers take 32 bits each. -/
  wide : Bool
  numbers : List Nat
  strings : List Capability
  names_lt : names.length < 2 ^ 16
  booleans_lt : booleans.length < 2 ^ 16
  numbers_lt : numbers.length < 2 ^ 16
  strings_lt : strings.length < 2 ^ 16
  le_strings : 295 ≤ strings.length

/-- The word in a capability's slot, over a string table. Strings may share bytes
of the table and overlap. -/
def Capability.StoredAs (table : List Byte) : Capability → Nat → Prop
  | .absent, w => w = 0xffff
  | .cancelled, w => w = 0xfffe
  | .string text _, w => w < 2 ^ 15 ∧ text ++ [0] <+: table.drop w

/-- A string table for a description and the offsets into it. -/
structure Layout (d : Description) where
  table : List Byte
  offsets : List Nat
  table_lt : table.length < 2 ^ 16
  stored : List.Forall₂ (Capability.StoredAs table) d.strings offsets

/-- The strings one after the other, from offset `start` of the table on. -/
def pack : Nat → List Capability → List Byte × List Nat
  | _, [] => ([], [])
  | start, .absent :: cs => ((pack start cs).1, 0xffff :: (pack start cs).2)
  | start, .cancelled :: cs => ((pack start cs).1, 0xfffe :: (pack start cs).2)
  | start, .string text _ :: cs =>
    let rest := pack (start + text.length + 1) cs
    (text ++ 0 :: rest.1, start :: rest.2)

theorem pack_stored (cs : List Capability) (before : List Byte)
    (h : (before ++ (pack before.length cs).1).length ≤ 2 ^ 15) :
    List.Forall₂ (Capability.StoredAs (before ++ (pack before.length cs).1)) cs
      (pack before.length cs).2 := by
  induction cs generalizing before with
  | nil => exact .nil
  | cons c cs ih =>
    cases c with
    | absent => exact .cons rfl (ih before h)
    | cancelled => exact .cons rfl (ih before h)
    | string text nulFree =>
      have hlen : (before ++ (text ++ [0])).length = before.length + text.length + 1 := by
        simp only [List.length_append, List.length_singleton]
        omega
      have happend : before ++ (pack before.length (.string text nulFree :: cs)).1 =
          before ++ (text ++ [0]) ++ (pack (before ++ (text ++ [0])).length cs).1 := by
        rw [pack, hlen]
        simp only [List.append_assoc, List.cons_append, List.nil_append]
      rw [happend] at h ⊢
      have hrest := ih (before ++ (text ++ [0])) h
      rw [pack, ← hlen]
      refine .cons ⟨?_, ?_⟩ hrest
      · rw [List.length_append, hlen] at h
        omega
      · rw [List.append_assoc before, List.drop_left]
        exact List.prefix_append _ _

/-- Every description whose strings do not take more than 32 KiB can be serialised. -/
def Description.packed (d : Description) (h : (pack 0 d.strings).1.length ≤ 2 ^ 15) : Layout d where
  table := (pack 0 d.strings).1
  offsets := (pack 0 d.strings).2
  table_lt := by omega
  stored := pack_stored d.strings [] h

namespace Description

variable (d : Description)

/-- The string in a slot. -/
def lookup (i : Nat) : Option (List Byte) := d.strings[i]?.bind Capability.found

/-- The pad byte, which aligns the numbers. -/
def pad : List Byte := if (d.names.length + d.booleans.length) % 2 = 1 then [0] else []

def magic : Nat := if d.wide then magicInt32 else magicInt16

def numberSize : Nat := if d.wide then 4 else 2

/-- The sections between the header and the string offsets. -/
def prelude : List Byte :=
  d.names ++ d.booleans ++ d.pad ++ Words.encode d.numberSize d.numbers

def header (l : Layout d) : List Byte :=
  Words.encode 2 [d.magic, d.names.length, d.booleans.length, d.numbers.length,
    d.strings.length, l.table.length]

/-- The compiled description, with whatever follows it in the file. -/
def serialise (l : Layout d) (extended : List Byte) : List Byte :=
  d.header l ++ (d.prelude ++ (Words.encode 2 l.offsets ++ (l.table ++ extended)))

end Description

section Serialise

variable {d : Description} (l : Layout d) (extended : List Byte)

/-- The file a description is serialised to. -/
def Description.file : File := { content := d.serialise l extended, seekable := true }

theorem length_header : (d.header l).length = 12 := by
  rw [Description.header, Words.length_encode]
  rfl

theorem magic_lt (d : Description) : d.magic < 256 ^ 2 := by
  unfold Description.magic
  split <;> decide

theorem file_word {k n : Nat} (h : [d.magic, d.names.length, d.booleans.length, d.numbers.length,
    d.strings.length, l.table.length][k]? = some n) : (d.file l extended).word k = n := by
  have hn : n < 256 ^ 2 := by
    have hall : ∀ n ∈ [d.magic, d.names.length, d.booleans.length, d.numbers.length,
        d.strings.length, l.table.length], n < 256 ^ 2 := by
      simp only [List.forall_mem_cons]
      exact ⟨magic_lt d, d.names_lt, d.booleans_lt, d.numbers_lt, d.strings_lt, l.table_lt,
        fun _ h => absurd h List.not_mem_nil⟩
    exact hall n (List.mem_of_getElem? h)
  have htake : (d.file l extended).content.take 12 = d.header l ++ [] := by
    rw [List.append_nil]
    exact List.take_left' (length_header l)
  rw [File.word, htake, word16, Description.header, Words.wordAt_encode h hn]
  rfl

theorem length_offsets : l.offsets.length = d.strings.length := l.stored.length_eq.symm

theorem file_magic : (d.file l extended).HasMagic := by
  have h : (d.file l extended).word 0 = d.magic := file_word l extended rfl
  unfold File.HasMagic
  rw [h, Description.magic]
  split
  · exact Or.inr rfl
  · exact Or.inl rfl

theorem file_stringStart : (d.file l extended).stringStart = d.prelude.length := by
  have h₀ : (d.file l extended).word 0 = d.magic := file_word l extended rfl
  have h₁ : (d.file l extended).word 1 = d.names.length := file_word l extended rfl
  have h₂ : (d.file l extended).word 2 = d.booleans.length := file_word l extended rfl
  have h₃ : (d.file l extended).word 3 = d.numbers.length := file_word l extended rfl
  have hpad : d.pad.length = (d.names.length + d.booleans.length) % 2 := by
    unfold Description.pad
    split
    · rename_i hodd
      exact hodd.symm
    · rename_i heven
      exact (by simpa using heven : _ = 0).symm
  have hsize : (if d.magic = magicInt16 then 2 else 4) = d.numberSize := by
    unfold Description.magic Description.numberSize
    cases d.wide <;> rfl
  rw [File.stringStart, h₀, h₁, h₂, h₃, hsize, Description.prelude, List.length_append,
    List.length_append, List.length_append, hpad, Words.length_encode]

theorem file_drop_strings : (d.file l extended).content.drop (12 + d.prelude.length) =
    Words.encode 2 l.offsets ++ (l.table ++ extended) := by
  show (d.serialise l extended).drop (12 + d.prelude.length) = _
  rw [Description.serialise, ← List.append_assoc]
  exact List.drop_left' (by rw [List.length_append, length_header])

theorem file_strings : (d.file l extended).strings = Words.encode 2 l.offsets := by
  have h : (d.file l extended).word 4 = d.strings.length := file_word l extended rfl
  rw [File.strings, file_stringStart, file_drop_strings, h, ← length_offsets l]
  exact List.take_left' (Words.length_encode _ _)

theorem file_table : (d.file l extended).table = l.table := by
  have h₄ : (d.file l extended).word 4 = d.strings.length := file_word l extended rfl
  have h₅ : (d.file l extended).word 5 = l.table.length := file_word l extended rfl
  rw [File.table, file_stringStart, h₄, h₅, ← List.drop_drop, file_drop_strings,
    ← length_offsets l, List.drop_left' (Words.length_encode _ _), List.take_left]

theorem file_hasSections : (d.file l extended).HasSections := by
  have h₄ : (d.file l extended).word 4 = d.strings.length := file_word l extended rfl
  have h₅ : (d.file l extended).word 5 = l.table.length := file_word l extended rfl
  have hdrop := congrArg List.length (file_drop_strings l extended)
  rw [List.length_drop, List.length_append, Words.length_encode, length_offsets, List.length_append]
    at hdrop
  have hlen : 12 ≤ (d.file l extended).content.length := by
    show 12 ≤ (d.serialise l extended).length
    rw [Description.serialise, List.length_append, length_header]
    omega
  refine ⟨hlen, ?_, ?_⟩
  · rw [h₄, file_stringStart, hdrop]
    omega
  · rw [h₄, h₅, file_stringStart]
    omega

theorem Capability.StoredAs.lt {table : List Byte} {c : Capability} {w : Nat}
    (h : c.StoredAs table w) : w < 256 ^ 2 := by
  cases c with
  | absent =>
    obtain rfl : w = 0xffff := h
    omega
  | cancelled =>
    obtain rfl : w = 0xfffe := h
    omega
  | string text nulFree =>
    obtain ⟨hlt, -⟩ := h
    omega

theorem int16_of_lt {w : Nat} (h : w < 2 ^ 15) : int16 w = w :=
  Int.bmod_eq_of_le (by omega) (by omega)

theorem lookupString_stored {strings table : List Byte} {count i w : Nat} (hi : i < count)
    (hw : word16 strings i = some w) {c : Capability} (h : c.StoredAs table w) :
    lookupString strings table count i = .ok c.found := by
  rw [lookupString, if_neg (by omega), hw]
  dsimp only
  cases c with
  | absent =>
    obtain rfl : w = 0xffff := h
    rfl
  | cancelled =>
    obtain rfl : w = 0xfffe := h
    rfl
  | string text nulFree =>
    obtain ⟨hlt, rest, hrest⟩ := h
    have hdrop : table.drop w = text ++ 0 :: rest := by
      rw [← hrest, List.append_assoc]
      rfl
    rw [int16_of_lt hlt, if_neg (by omega), hdrop, if_pos (by simp), cstr_append nulFree,
      Capability.found]
    simp only [List.length_eq_zero_iff]
    split <;> rfl

theorem lookupString_file {i : Nat} (hi : i < d.strings.length) :
    lookupString (Words.encode 2 l.offsets) l.table d.strings.length i = .ok (d.lookup i) := by
  have hlt : i < l.offsets.length := length_offsets l ▸ hi
  have hstored : d.strings[i].StoredAs l.table l.offsets[i] := l.stored.get hi hlt
  have hword : word16 (Words.encode 2 l.offsets) i = some l.offsets[i] := by
    have h := Words.wordAt_encode (List.getElem?_eq_getElem hlt) hstored.lt []
    rwa [List.append_nil] at h
  rw [lookupString_stored hi hword hstored, Description.lookup, List.getElem?_eq_getElem hi]
  rfl

/-- **Round trip.** Whatever the description, the place of its strings in the table
and what follows it in the file, `parse` fills the four tables with the strings of
the slots that belong to them. -/
theorem parse_serialise (t : Terminfo) :
    parse (d.file l extended) t = .ok (true, { t with
      inputs := inputSeqIndices.map d.lookup
      outputs := outputSeqIndices.map d.lookup
      specials := specialSeqIndices.map d.lookup
      customs := customSeqIndices.map d.lookup }) := by
  have hsections := file_hasSections l extended
  have hcount : (d.file l extended).word 4 = d.strings.length := file_word l extended rfl
  have hseekable : (d.file l extended).seekable = true := rfl
  have hlookups : ∀ {indices : List Nat}, (∀ i ∈ indices, i < 295) →
      lookupStrings (Words.encode 2 l.offsets) l.table d.strings.length indices =
        .ok (indices.map d.lookup) := fun h =>
    lookupStrings_eq fun i hi => lookupString_file l ((h i hi).trans_le d.le_strings)
  rw [parse_of_magic (by have := hsections.1; omega) (file_magic l extended),
    if_pos hseekable,
    parseStrings_eq hsections.1, if_pos hsections, file_strings, file_table, hcount, lookupTables,
    hlookups (by decide), Run.ok_bind, hlookups (by decide), Run.ok_bind, hlookups (by decide),
    Run.ok_bind, hlookups (by decide), Run.ok_bind]
  rfl

end Serialise

end Nanorl
