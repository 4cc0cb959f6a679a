import Mathlib.Data.Stream.Init
import Mathlib.Order.Bounds.Basic

/-!
# Nanorl.Lib.PrefixCode

**Code words and streams.** A set of words `W` over an arbitrary alphabet is
read against an endless stream: which word begins the stream, and how long a
look-ahead can still hope for one.

* `Begins w s`: the stream starts with the word.
* `Live W p`: the word read so far can still be completed to a member of `W`.
* `Unfinished W p`: it can be completed and is not complete yet.
* `PrefixFree W`: no member is a proper prefix of another, so at most one
  member begins a stream (`PrefixFree.unique`).

The look-ahead of a recogniser for `W` ends one entry after the longest live
prefix of the stream (`longestLive`).
-/

namespace PrefixCode

variable {α : Type*}

/-! ### Prefixes of a stream -/

/-- The stream starts with the word. -/
def Begins (w : List α) (s : Stream' α) : Prop := s.take w.length = w

instance [DecidableEq α] (w : List α) (s : Stream' α) : Decidable (Begins w s) :=
  inferInstanceAs (Decidable (s.take w.length = w))

theorem take_prefix_take (s : Stream' α) {m n : Nat} (h : m ≤ n) :
    s.take m <+: s.take n := by
  have htake : (s.take n).take m = s.take m := by
    rw [Stream'.take_take, Nat.min_eq_right h]
  exact htake ▸ List.take_prefix m (s.take n)

theorem begins_take (n : Nat) (s : Stream' α) : Begins (s.take n) s := by
  rw [Begins, Stream'.length_take]

theorem begins_cons {b : α} {w : List α} {s : Stream' α} :
    Begins (b :: w) s ↔ s.head = b ∧ Begins w s.tail := by
  simp only [Begins, List.length_cons, Stream'.take_succ, List.cons.injEq]

theorem begins_append (w : List α) (s : Stream' α) : Begins w (w ++ₛ s) := by
  rw [Begins, Stream'.take_append_of_le_length _ _ _ (Nat.le_refl _), List.take_length]

/-- A word that begins the stream is the stream's prefix of its length, and a
prefix of that length is also a prefix of every longer one. -/
theorem Begins.prefix_take {w : List α} {s : Stream' α} (hw : Begins w s) {n : Nat}
    (hn : w.length ≤ n) : w <+: s.take n := by
  rw [Begins] at hw
  exact hw ▸ take_prefix_take s (hw.symm ▸ hn)

/-- Two words that begin one stream are comparable. -/
theorem Begins.comparable {v w : List α} {s : Stream' α} (hv : Begins v s)
    (hw : Begins w s) : v <+: w ∨ w <+: v := by
  rcases Nat.le_total v.length w.length with h | h
  · left
    rw [Begins] at hw
    exact hw ▸ hv.prefix_take h
  · right
    rw [Begins] at hv
    exact hv ▸ hw.prefix_take h

/-! ### Live words -/

/-- Some member of `W` continues the word. -/
def Live (W : Set (List α)) (p : List α) : Prop := ∃ w ∈ W, p <+: w

theorem Live.shorter {W : Set (List α)} {p q : List α} (h : Live W q)
    (hp : p <+: q) : Live W p := by
  obtain ⟨w, hw, hq⟩ := h
  exact ⟨w, hw, hp.trans hq⟩

theorem live_of_mem {W : Set (List α)} {w : List α} (h : w ∈ W) : Live W w :=
  ⟨w, h, List.prefix_rfl⟩

/-- Some member of `W` continues the word by at least one entry. -/
def Unfinished (W : Set (List α)) (p : List α) : Prop := ∃ w ∈ W, p <+: w ∧ p ≠ w

theorem Unfinished.live {W : Set (List α)} {p : List α} (h : Unfinished W p) : Live W p := by
  obtain ⟨w, hw, hp, -⟩ := h
  exact ⟨w, hw, hp⟩

/-- A look-ahead that dies at its `n + 1`-st entry has read the longest live
prefix of the stream and one entry more. -/
theorem longestLive {W : Set (List α)} {s : Stream' α} {n : Nat}
    (hlive : Live W (s.take n)) (hdead : ¬ Live W (s.take (n + 1))) :
    IsGreatest {m | Live W (s.take m)} n := by
  refine ⟨hlive, fun m hm => ?_⟩
  by_contra hlt
  exact hdead (Live.shorter hm (take_prefix_take s (by omega : n + 1 ≤ m)))

/-- No look-ahead along the stream goes on for `limit` entries. -/
def Within (W : Set (List α)) (s : Stream' α) (limit : Nat) : Prop :=
  ∀ k, Unfinished W (s.take k) → k < limit

theorem within_of_length_le {W : Set (List α)} {limit : Nat} (h : ∀ w ∈ W, w.length ≤ limit)
    (s : Stream' α) : Within W s limit := by
  intro k hopen
  obtain ⟨w, hw, hp, hne⟩ := hopen
  have hlt : (s.take k).length < w.length :=
    lt_of_le_of_ne hp.length_le (fun heq => hne (hp.eq_of_length heq))
  rw [Stream'.length_take] at hlt
  exact hlt.trans_le (h w hw)

/-- Where no member starts with the head of the stream, a look-ahead ends at once. -/
theorem within_of_head {W : Set (List α)} {s : Stream' α} {limit : Nat} (hpos : 0 < limit)
    (h : ∀ w ∈ W, w.head? ≠ some s.head) : Within W s limit := by
  intro k hopen
  obtain ⟨w, hw, ⟨rest, rfl⟩, -⟩ := hopen
  cases k with
  | zero => exact hpos
  | succ k => exact absurd rfl (h _ hw)

/-! ### Prefix-free sets -/

/-- No member is a proper prefix of another. -/
def PrefixFree (W : Set (List α)) : Prop :=
  ∀ v ∈ W, ∀ w ∈ W, v <+: w → v = w

/-- At most one member of a prefix-free set begins a stream. -/
theorem PrefixFree.unique {W : Set (List α)} (hW : PrefixFree W) {v w : List α}
    {s : Stream' α} (hv : v ∈ W) (hw : w ∈ W) (hvs : Begins v s) (hws : Begins w s) :
    v = w := by
  rcases hvs.comparable hws with h | h
  · exact hW v hv w hw h
  · exact (hW w hw v hv h).symm

/-- Where a look-ahead dies behind an unfinished word, no member begins the stream. -/
theorem PrefixFree.none_begins {W : Set (List α)} (hW : PrefixFree W) {s : Stream' α} {n : Nat}
    (hopen : Unfinished W (s.take n)) (hdead : ¬ Live W (s.take (n + 1))) :
    ∀ w ∈ W, ¬ Begins w s := by
  intro w hw hb
  -- a member that begins the stream is live, so it is read before the look-ahead dies
  have hle : w.length ≤ n := by
    by_contra hlt
    exact hdead ((live_of_mem hw).shorter
      (hb ▸ take_prefix_take s (by omega : n + 1 ≤ w.length)))
  obtain ⟨v, hv, hpv, hne⟩ := hopen
  have hwv := hW w hw v hv ((hb.prefix_take hle).trans hpv)
  exact hne (hpv.eq_of_length_le (hwv ▸ (hb.prefix_take hle).length_le))

theorem PrefixFree.mono {V W : Set (List α)} (hW : PrefixFree W) (h : V ⊆ W) :
    PrefixFree V :=
  fun v hv w hw => hW v (h hv) w (h hw)

end PrefixCode
