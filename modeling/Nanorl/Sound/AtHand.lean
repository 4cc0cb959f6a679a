import Nanorl.Sound.Tokens

/-!
# Nanorl.Sound.AtHand

Where reads begin and end.

A stream does not tell which of its bytes have come already, nor whether the one that marks the
end of the input stands for a read that has failed. A `Mark` in a list of reads does: so many
bytes are at hand before it, in the buffer, in the preload and in the reads up to it
(`Io.AtHand`). `next_char` stays before the mark as long as the bytes at hand go on
(`Pulled.nextChar_atHand`), so a call that pulls no more than there are does not wait for input.
-/

namespace Nanorl

/-! ### Reads and marks -/

/-- The bytes a read comes to; an end of file and a failure come to the mark `charEot`. -/
def delivered : ReadResult → List Byte
  | .data (byte :: bytes) => byte :: bytes
  | .data [] => [charEot]
  | .failed _ => [charEot]

/-- The bytes a list of reads comes to. -/
def deliveredAll (reads : List ReadResult) : List Byte := reads.flatMap delivered

theorem delivered_ne_nil (r : ReadResult) : delivered r ≠ [] := by
  rcases r with (_ | ⟨byte, bytes⟩) | e <;> exact List.cons_ne_nil _ _

theorem deliveredAll_cons (r : ReadResult) (reads : List ReadResult) :
    deliveredAll (r :: reads) = delivered r ++ deliveredAll reads := rfl

theorem deliveredAll_append (reads reads' : List ReadResult) :
    deliveredAll (reads ++ reads') = deliveredAll reads ++ deliveredAll reads' := List.flatMap_append

theorem deliveredAll_data {chunks : List (List Byte)} (hne : [] ∉ chunks) :
    deliveredAll (chunks.map .data) = chunks.flatten := by
  induction chunks with
  | nil => rfl
  | cons chunk chunks ih =>
    rw [List.mem_cons, not_or] at hne
    rw [List.map_cons, deliveredAll_cons, ih hne.2, List.flatten_cons]
    cases chunk with
    | nil => exact absurd rfl hne.1
    | cons byte bytes => rfl

theorem readsStream_delivered (reads rest : List ReadResult) :
    readsStream (reads ++ rest) = deliveredAll reads ++ₛ readsStream rest := by
  induction reads with
  | nil => rfl
  | cons r reads ih =>
    rw [deliveredAll_cons, Stream'.append_append_stream, ← ih]
    rcases r with (_ | ⟨byte, bytes⟩) | e <;> rfl

/-- `errno` behind a list of reads. -/
def errnoAfter : List ReadResult → Errno → Errno
  | [], errno => errno
  | .failed e :: reads, _ => errnoAfter reads e
  | .data _ :: reads, errno => errnoAfter reads errno

theorem errnoAfter_data (chunks : List (List Byte)) (errno : Errno) :
    errnoAfter (chunks.map .data) errno = errno := by
  induction chunks with
  | nil => rfl
  | cons chunk chunks ih => exact ih

/-- The last of the reads to fail was interrupted. -/
def interrupted (reads : List ReadResult) : Bool := errnoAfter reads .none = .eintr

/-- What `errno` was before matters only if it was an interrupt. -/
theorem errnoAfter_eintr {errno : Errno} (h : errno ≠ .eintr) (reads : List ReadResult) :
    errnoAfter reads errno = .eintr ↔ interrupted reads = true := by
  have hany : ∀ {e e' : Errno}, (e = .eintr ↔ e' = .eintr) →
      (errnoAfter reads e = .eintr ↔ errnoAfter reads e' = .eintr) := by
    induction reads with
    | nil => exact id
    | cons r reads ih =>
      intro e e' heq
      cases r with
      | data bytes => exact ih heq
      | failed e'' => exact Iff.rfl
  rw [interrupted, decide_eq_true_eq]
  exact hany (iff_of_false h (by decide))

/-- A place in the input: the reads that are still to come there, and what `errno` is then. -/
structure Mark where
  reads : List ReadResult
  errno : Errno

/-- So many bytes come before the mark: the preload, and what the reads before it deliver. -/
def Io.Holds (mark : Mark) (n : Nat) (s : Io) : Prop :=
  ∃ front, s.world.reads = front ++ mark.reads ∧ errnoAfter front s.world.errno = mark.errno ∧
    (s.preloadData.getD []).length + (deliveredAll front).length = n

/-- So many bytes are unread before the mark. -/
def Io.AtHand (mark : Mark) (n : Nat) (s : Io) : Prop :=
  ∃ m, s.Holds mark m ∧ s.rdCount + m = s.rdUsed + n

/-- A request takes from what there is before the mark, if there is anything. -/
theorem Io.Holds.next {mark : Mark} {m : Nat} {s : Io} (h : s.Holds mark m) (count : Nat)
    (hpos : s.preloadData = none → 0 < m) :
    ∃ m', Io.Holds mark m' { s with
        preloadData := (s.source.next count).2.preload
        world := s.worldAfter count } ∧ (s.source.next count).1.length + m' = m := by
  obtain ⟨front, hreads, herrno, hlength⟩ := h
  cases hpreload : s.preloadData with
  | some preload =>
    rw [hpreload, Option.getD_some] at hlength
    simp only [Io.source, Io.worldAfter, hpreload, Source.next]
    by_cases hmore : preload.length > count
    · refine ⟨preload.length - count + (deliveredAll front).length, ⟨front, hreads, herrno, ?_⟩, ?_⟩
      · rw [if_pos hmore, Option.getD_some, List.length_drop]
      · rw [List.length_take]
        omega
    · refine ⟨(deliveredAll front).length, ⟨front, hreads, herrno, ?_⟩, ?_⟩
      · rw [if_neg hmore, Option.getD_none, List.length_nil, Nat.zero_add]
      · rw [List.length_take]
        omega
  | none =>
    have hm := hpos hpreload
    rw [hpreload, Option.getD_none, List.length_nil, Nat.zero_add] at hlength
    cases front with
    | nil =>
      rw [deliveredAll, List.flatMap_nil, List.length_nil] at hlength
      omega
    | cons r front =>
      rw [deliveredAll_cons, List.length_append] at hlength
      rw [List.cons_append] at hreads
      simp only [Io.source, Io.worldAfter, hpreload, Source.next, World.read, hreads]
      rcases r with (_ | ⟨byte, bytes⟩) | e
      · exact ⟨(deliveredAll front).length, ⟨front, by simp, herrno, Nat.zero_add _⟩, hlength⟩
      · by_cases hall : (byte :: bytes).length ≤ count
        · simp only [if_pos hall, List.take_of_length_le hall]
          exact ⟨(deliveredAll front).length, ⟨front, rfl, herrno, Nat.zero_add _⟩, hlength⟩
        · simp only [if_neg hall]
          have hsplit : (delivered (.data ((byte :: bytes).drop count))).length =
              (byte :: bytes).length - count := by
            rw [← List.length_drop]
            cases hdrop : (byte :: bytes).drop count with
            | nil => exact absurd (List.drop_eq_nil_iff.mp hdrop) hall
            | cons b bs => rfl
          refine ⟨(byte :: bytes).length - count + (deliveredAll front).length,
            ⟨.data ((byte :: bytes).drop count) :: front, rfl, herrno, ?_⟩, ?_⟩
          · rw [deliveredAll_cons, List.length_append, hsplit]
            exact Nat.zero_add _
          · change (byte :: bytes).length + _ = m at hlength
            rw [List.length_take]
            omega
      · exact ⟨(deliveredAll front).length, ⟨front, rfl, herrno, Nat.zero_add _⟩, hlength⟩

section AtHand

variable (P : Platform) {mark : Mark} {a : Stream' Byte} {s s' : Io}

theorem readWrapper_holds {start count bytes m : Nat} (h : readWrapper P start count s = .ok (bytes, s'))
    (hc : 0 < count) (hfit : start + count ≤ ioBufSize) (hholds : s.Holds mark m)
    (hpos : s.preloadData = none → 0 < m) :
    ∃ m', s'.Holds mark m' ∧ bytes + m' = m ∧ s'.rdUsed = s.rdUsed ∧ s'.rdCount = s.rdCount ∧
      s'.rdPending = s.rdPending := by
  rw [readWrapper_eq P hc hfit] at h
  obtain ⟨_, -, h⟩ := Run.bind_eq_ok.mp h
  obtain ⟨rfl, rfl⟩ := Prod.mk.inj (Except.ok.inj h)
  obtain ⟨m', hholds', hlength⟩ := hholds.next count hpos
  exact ⟨m', hholds', hlength, rfl, rfl, rfl⟩

/-- The two reads of `next_char` stay before the mark as long as there is something. -/
theorem fillBuffer_atHand {n : Nat} (hused : s.rdUsed + s.rdPending ≤ s.rdCount)
    (hhand : s.AtHand mark n) (hn : s.rdPending < n) (h : fillBuffer P s = .ok s') :
    s'.AtHand mark n ∧ s'.rdPending = s.rdPending ∧ s'.rdUsed + s'.rdPending ≤ s'.rdCount := by
  obtain ⟨m, hholds, hcount⟩ := hhand
  unfold fillBuffer at h
  split at h
  · rename_i hempty
    obtain ⟨⟨bytes, s₁⟩, hread, h⟩ := Run.bind_eq_ok.mp h
    obtain rfl := Except.ok.inj h
    obtain ⟨m', hholds', hlength, hused', -, hpending'⟩ :=
      readWrapper_holds P hread ioBufSize_pos (by omega) hholds (fun _ => by omega)
    refine ⟨⟨m', hholds', ?_⟩, ?_, ?_⟩ <;> dsimp only at hused' hpending' ⊢ <;> omega
  · obtain rfl := Except.ok.inj h
    exact ⟨⟨m, hholds, hcount⟩, rfl, hused⟩

theorem refillBuffer_atHand {n : Nat} (hk : s.rdPending < ioBufSize) (hhand : s.AtHand mark n)
    (hn : s.rdPending < n) (h : refillBuffer P s = .ok s') : s'.AtHand mark n := by
  obtain ⟨m, hholds, hcount⟩ := hhand
  unfold refillBuffer at h
  split at h
  · rename_i hreach
    obtain ⟨s₁, hstore, h⟩ := Run.bind_eq_ok.mp h
    obtain ⟨⟨bytes, s₂⟩, hread, h⟩ := Run.bind_eq_ok.mp h
    obtain rfl := Except.ok.inj h
    unfold Io.store at hstore
    split at hstore
    · obtain rfl := Except.ok.inj hstore
      dsimp only at hread
      obtain ⟨m', hholds', hlength, hused', hcount', -⟩ :=
        readWrapper_holds P hread (by omega) (by omega) hholds (fun _ => by omega)
      refine ⟨m', hholds', ?_⟩
      dsimp only at hused' hcount' ⊢
      omega
    · cases hstore
  · obtain rfl := Except.ok.inj h
    exact ⟨m, hholds, hcount⟩

/-- **One pull within what is at hand** stays before the mark. -/
theorem Pulled.nextChar_atHand {k c n : Nat} (h : Pulled a k c s) (hhand : s.AtHand mark n)
    (hk : k < ioBufSize) (hn : k < n) :
    ∃ s' c', nextChar P s = .ok (a.get k, s') ∧ Pulled a (k + 1) c' s' ∧ s'.AtHand mark n := by
  have hpulls : ∃ s' c', nextChar P s = .ok (a.get k, s') ∧ Pulled a (k + 1) c' s' := by
    obtain _ | k := k
    · have hready : Ready a s := ⟨h.readFile, h.pending, h.count_le, h.used_le, h.preload,
        fun i _ hi => absurd hi (Nat.not_lt_zero i), h.rest⟩
      obtain ⟨s₁, hfill, hready₁, hlt, -, -⟩ := hready.filled P
      obtain ⟨s₂, hnext, hlooked⟩ := (LookedAt.start hready₁).step P hlt ioBufSize_pos
      obtain ⟨c', hpulled⟩ := hlooked.pulled
      exact ⟨s₂, c', (nextChar_filled P hfill hready₁.pending hlt).trans hnext, hpulled⟩
    · obtain ⟨s', c', hnext, hpulled, -⟩ := h.nextChar_pos P (Nat.succ_pos k) hk
      exact ⟨s', c', hnext, hpulled⟩
  obtain ⟨s', c', hnext, hpulled⟩ := hpulls
  refine ⟨s', c', hnext, hpulled, ?_⟩
  have hpending := h.pending
  have hused := h.used_le
  rw [nextChar] at hnext
  obtain ⟨s₁, hfill, hnext⟩ := Run.bind_eq_ok.mp hnext
  obtain ⟨s₂, hrefill, hnext⟩ := Run.bind_eq_ok.mp hnext
  obtain ⟨hhand₁, hpending₁, -⟩ := fillBuffer_atHand P (by omega) hhand (by omega) hfill
  have hhand₂ := refillBuffer_atHand P (by omega) hhand₁ (by omega) hrefill
  unfold takeChar at hnext
  split at hnext
  · obtain ⟨-, rfl⟩ := Prod.mk.inj (Except.ok.inj hnext)
    exact hhand₂
  · cases hnext

theorem nextChars_atHand {n : Nat} : ∀ (m : Nat) {k c : Nat} {s : Io}, Pulled a k c s →
    s.AtHand mark n → k + m ≤ n → k + m ≤ ioBufSize →
    ∃ s' c', nextChars P m s = .ok ((a.drop k).take m, s') ∧ Pulled a (k + m) c' s' ∧ s'.AtHand mark n := by
  intro m
  induction m with
  | zero => exact fun h hhand _ _ => ⟨_, _, rfl, h, hhand⟩
  | succ m ih =>
    intro k c s h hhand hn hsize
    obtain ⟨s₁, c₁, hnext, hpulled₁, hhand₁⟩ := h.nextChar_atHand P hhand (by omega) (by omega)
    obtain ⟨s₂, c₂, hrest, hpulled₂, hhand₂⟩ := ih hpulled₁ hhand₁ (by omega) (by omega)
    refine ⟨s₂, c₂, ?_, (by omega : k + 1 + m = k + (m + 1)) ▸ hpulled₂, hhand₂⟩
    rw [nextChars, hnext, Run.ok_bind]
    dsimp only
    rw [hrest, Run.ok_bind, Stream'.take_succ, Stream'.head_drop, Stream'.tail_drop']
    rfl

/-- Bytes that are consumed are not at hand any more. -/
theorem Io.AtHand.consume {n j : Nat} (h : s.AtHand mark n) (hj : j ≤ n) :
    Io.AtHand mark (n - j) { s with rdUsed := s.rdUsed + j, rdPending := 0 } := by
  obtain ⟨m, hholds, hcount⟩ := h
  refine ⟨m, hholds, ?_⟩
  dsimp only
  omega

/-- A character whose bytes are at hand is read without those behind it. -/
theorem nextUchar_atHand {n : Nat} (hlaw : P.ConsumesAnnounced) (h : Ready a s) (hhand : s.AtHand mark n)
    (hn : announced P a ≤ n) {uc : Uchar} (hread : nextUchar P s = .ok (uc, s')) :
    s'.AtHand mark (n - (character P a).1) := by
  have hpos := announced_pos P a
  have hfour := announced_le P a
  have hsize : announced P a ≤ ioBufSize := by
    unfold ioBufSize
    omega
  obtain ⟨s₁, c₁, hlead, hpulled₁, hhand₁⟩ := Pulled.nextChar_atHand P h hhand ioBufSize_pos (by omega)
  obtain ⟨s₂, c₂, hbytes, -, hhand₂⟩ :=
    nextChars_atHand P (announced P a - 1) hpulled₁ hhand₁ (by omega) (by omega)
  have hfollowing : (P.utf8Inspect (a.get 0)).following = announced P a - 1 := by
    unfold announced
    omega
  have htake : a.get 0 :: (a.drop 1).take (announced P a - 1) = a.take (announced P a) := by
    obtain ⟨m, hm⟩ : ∃ m, announced P a = m + 1 := ⟨announced P a - 1, by omega⟩
    rw [hm, Stream'.take_succ, Nat.add_sub_cancel]
    rfl
  have hlawa := hlaw a
  rcases hparse : P.utf8ParseUchar (ucharBuffer (a.take (announced P a))) with ⟨consumed, uc'⟩
  rw [hparse] at hlawa
  simp only [nextUchar, hlead, Run.ok_bind, hfollowing, hbytes, htake, hparse] at hread
  rw [character_of_parse P hparse]
  by_cases hzero : consumed = 0
  · rw [if_pos hzero] at hread ⊢
    obtain ⟨-, rfl⟩ := Prod.mk.inj (Except.ok.inj hread)
    exact hhand₂.consume (by omega)
  · rw [if_neg hzero] at hread ⊢
    obtain ⟨-, rfl⟩ := Prod.mk.inj (Except.ok.inj hread)
    exact hhand₂.consume ((Nat.le_of_eq (hlawa.resolve_left hzero)).trans hn)

end AtHand

end Nanorl
