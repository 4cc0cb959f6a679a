import Nanorl.Sound.DfaBuild

/-!
# Nanorl.Sound.DfaParse

`nrl_dfa_parse` against the words of its tree.

The parser pulls its characters through a function it is given. What every pull keeps
the parse keeps (`nrlDfaParse_ends`, `nrlDfaParse_same`), and its
correctness is stated for any source that delivers a stream `a` one entry at a
time: `R k s` says that `s` is the source's state after `k` pulls, and the source
need not deliver more entries than the longest word has. `nrlDfaParse_spec` is
that statement; the reader instantiates it with its refilling buffer, the last
section with a stream and a counter.
-/

namespace Nanorl

open PrefixCode (Begins Live Unfinished PrefixFree Within begins_take live_of_mem longestLive
  within_of_length_le)
open DfaNode (childAt descend IsLeaf IsInner leafAt)
open Run (Ends Same)

/-! ### Any source -/

section Source

variable {σ τ : Type} {next : σ → Except Fault (Byte × σ)} {next' : τ → Except Fault (Byte × τ)}
  {F : Fault → Prop} {I : σ → Prop} {R : σ → τ → Prop}

mutual
theorem DfaNode.parse_ends (hnext : ∀ s, I s → Ends F (fun r => I r.2) (next s)) (node : DfaNode)
    (acceptBuf : DfaAcceptor) {s : σ} (hs : I s) :
    Ends F (fun r => I r.2.2) (node.parse next acceptBuf s) := by
  cases node with
  | accept edge custom value => exact (hnext s hs).bind fun _ h => .ok h
  | children edge custom nodes =>
    exact (hnext s hs).bind fun ⟨input, s₁⟩ h =>
      DfaNode.parseChildren_ends hnext nodes input acceptBuf h
theorem DfaNode.parseChildren_ends (hnext : ∀ s, I s → Ends F (fun r => I r.2) (next s))
    (nodes : List DfaNode) (input : Byte) (acceptBuf : DfaAcceptor) {s : σ} (hs : I s) :
    Ends F (fun r => I r.2.2) (DfaNode.parseChildren next nodes input acceptBuf s) := by
  cases nodes with
  | nil => exact .ok hs
  | cons child nodes =>
    rw [DfaNode.parseChildren]
    split
    · split
      · exact .ok hs
      · exact DfaNode.parse_ends hnext child acceptBuf hs
    · exact DfaNode.parseChildren_ends hnext nodes input acceptBuf hs
end

/-- An invariant of the source survives the parse. -/
theorem nrlDfaParse_ends (hnext : ∀ s, I s → Ends F (fun r => I r.2) (next s)) (root : DfaNode)
    (acceptBuf : DfaAcceptor) {s : σ} (hs : I s) :
    Ends F (fun r => I r.2.2) (nrlDfaParse next root acceptBuf s) := by
  unfold nrlDfaParse
  split
  · exact .ok hs
  · exact DfaNode.parse_ends hnext root acceptBuf hs

mutual
theorem DfaNode.parse_same
    (hnext : ∀ s t, R s t → Same (fun r r' => r'.1 = r.1 ∧ R r.2 r'.2) (next s) (next' t))
    (node : DfaNode) (acceptBuf : DfaAcceptor) {s : σ} {t : τ} (hst : R s t) :
    Same (fun r r' => r'.1 = r.1 ∧ r'.2.1 = r.2.1 ∧ R r.2.2 r'.2.2)
      (node.parse next acceptBuf s) (node.parse next' acceptBuf t) := by
  cases node with
  | accept edge custom value => exact (hnext s t hst).bind fun _ _ h => .ok ⟨rfl, rfl, h.2⟩
  | children edge custom nodes =>
    refine (hnext s t hst).bind fun r r' h => ?_
    obtain ⟨_, s₁⟩ := r
    obtain ⟨input, t₁⟩ := r'
    obtain ⟨rfl, hst₁⟩ := h
    exact DfaNode.parseChildren_same hnext nodes input acceptBuf hst₁
theorem DfaNode.parseChildren_same
    (hnext : ∀ s t, R s t → Same (fun r r' => r'.1 = r.1 ∧ R r.2 r'.2) (next s) (next' t))
    (nodes : List DfaNode) (input : Byte) (acceptBuf : DfaAcceptor) {s : σ} {t : τ} (hst : R s t) :
    Same (fun r r' => r'.1 = r.1 ∧ r'.2.1 = r.2.1 ∧ R r.2.2 r'.2.2)
      (DfaNode.parseChildren next nodes input acceptBuf s)
      (DfaNode.parseChildren next' nodes input acceptBuf t) := by
  cases nodes with
  | nil => exact .ok ⟨rfl, rfl, hst⟩
  | cons child nodes =>
    rw [DfaNode.parseChildren, DfaNode.parseChildren]
    split
    · split
      · exact .ok ⟨rfl, rfl, hst⟩
      · exact DfaNode.parse_same hnext child acceptBuf hst
    · exact DfaNode.parseChildren_same hnext nodes input acceptBuf hst
end

/-- Two sources that hand out the same bytes are parsed alike. -/
theorem nrlDfaParse_same
    (hnext : ∀ s t, R s t → Same (fun r r' => r'.1 = r.1 ∧ R r.2 r'.2) (next s) (next' t))
    (root : DfaNode) (acceptBuf : DfaAcceptor) {s : σ} {t : τ} (hst : R s t) :
    Same (fun r r' => r'.1 = r.1 ∧ r'.2.1 = r.2.1 ∧ R r.2.2 r'.2.2)
      (nrlDfaParse next root acceptBuf s) (nrlDfaParse next' root acceptBuf t) := by
  unfold nrlDfaParse
  split
  · exact .ok ⟨rfl, rfl, hst⟩
  · exact DfaNode.parse_same hnext root acceptBuf hst

end Source

/-! ### The tree along a stream -/

theorem DfaNode.descend_append : ∀ (p q : List Byte) (node : DfaNode),
    descend (p ++ q) node = (descend p node).bind (descend q)
  | [], q, node => by simp
  | b :: p, q, .accept _ _ _ => rfl
  | b :: p, q, .children _ _ nodes => by
      rw [List.cons_append, descend_children, descend_children, Option.bind_assoc]
      congr 1
      funext child
      exact descend_append p q child

section TreeOf

variable {W : Set (List Byte)} {root : DfaNode}

theorem TreeOf.nil_not_mem (hT : TreeOf W root) : [] ∉ W := by
  intro h
  obtain ⟨n, hn, hnl⟩ := (hT.leaf_iff []).mpr h
  obtain rfl := Option.some.inj hn
  exact hT.root_not_leaf hnl

/-- A path exists exactly for the live words. -/
theorem TreeOf.live_iff (hT : TreeOf W root) {p : List Byte} (hp : p ≠ []) :
    Live W p ↔ ∃ n, descend p root = some n := by
  constructor
  · intro h
    obtain ⟨w, hw, hpw⟩ := h
    by_cases heq : p = w
    · obtain ⟨n, hn, -⟩ := (hT.leaf_iff p).mpr (heq ▸ hw)
      exact ⟨n, hn⟩
    · obtain ⟨n, hn, -⟩ := (hT.inner_iff p).mpr ⟨w, hw, hpw, heq⟩
      exact ⟨n, hn⟩
  · intro h
    obtain ⟨n, hn⟩ := h
    rcases hT.full p n hn with hl | hi | hnil
    · exact live_of_mem ((hT.leaf_iff p).mp ⟨n, hn, hl⟩)
    · obtain ⟨w, hw, hpw, -⟩ := (hT.inner_iff p).mp ⟨n, hn, hi⟩
      exact ⟨w, hw, hpw⟩
    · exact absurd hnil hp

theorem TreeOf.root_isInner (hT : TreeOf W root) (hW : W.Nonempty) : root.IsInner := by
  obtain ⟨w, hw⟩ := hW
  obtain ⟨n, hn, hni⟩ := (hT.inner_iff []).mpr
    ⟨w, hw, List.nil_prefix, fun h => hT.nil_not_mem (h ▸ hw)⟩
  obtain rfl := Option.some.inj hn
  exact hni

theorem TreeOf.childrenCount_eq_zero (hT : TreeOf W root) :
    root.childrenCount = 0 ↔ W = ∅ := by
  constructor
  · intro h0
    rw [Set.eq_empty_iff_forall_notMem]
    intro w hw
    have hi := hT.root_isInner ⟨w, hw⟩
    cases root with
    | accept => exact hi
    | children e c nodes =>
      obtain rfl := List.length_eq_zero_iff.mp h0
      exact hi
  · intro hW
    by_contra h0
    obtain ⟨w, hw, -⟩ := (hT.inner_iff []).mp
      ⟨root, DfaNode.descend_nil _, isInner_of_childrenCount h0⟩
    rw [hW] at hw
    exact hw

/-- In a tree of words, words of one path are free of proper prefixes. -/
theorem TreeOf.prefixFree (hT : TreeOf W root) : PrefixFree W := by
  intro v hv w hw hp
  by_contra hne
  obtain ⟨n, hn, hnl⟩ := (hT.leaf_iff v).mpr hv
  obtain ⟨m, hm, hmi⟩ := (hT.inner_iff v).mpr ⟨w, hw, hp, hne⟩
  rw [hn, Option.some.injEq] at hm
  exact hnl.not_isInner (hm ▸ hmi)

end TreeOf

/-! ### The parser's loop -/

/-- What the parser reports for an acceptor. -/
def resultOf (custom : Bool) : DfaResult := if custom then .custom else .input

theorem resultOf_injective {c c' : Bool} (h : resultOf c = resultOf c') : c = c' := by
  cases c <;> cases c' <;> first | rfl | cases h

section Parse

variable {σ : Type} {nextChar : σ → Except Fault (Byte × σ)}

/-- The inner loop stops at the child `childAt` finds. -/
theorem parseChildren_eq (input : Byte) (buf : DfaAcceptor) (s : σ) :
    ∀ nodes : List DfaNode, DfaNode.parseChildren nextChar nodes input buf s =
      match childAt nodes input with
      | none => .ok (.empty, buf, s)
      | some child =>
        if child.childrenCount = 0 then .ok (resultOf child.custom, child.acceptor, s)
        else child.parse nextChar buf s := by
  intro nodes
  induction nodes with
  | nil => rfl
  | cons child nodes ih =>
    rw [DfaNode.parseChildren]
    by_cases h : input = child.edge
    · rw [if_pos h]
      have hat : childAt (child :: nodes) input = some child := by simp [childAt, h]
      rw [hat]
      rfl
    · rw [if_neg h, ih]
      have hat : childAt (child :: nodes) input = childAt nodes input := by
        simp [childAt, Ne.symm h]
      rw [hat]

variable {a : Stream' Byte} {R : Nat → σ → Prop} {limit : Nat} {W : Set (List Byte)}
  {root : DfaNode}

/-- The loop from an inner node `k` entries deep: it ends at the first prefix of
the stream that is a word, or is not live any more. The induction is on how many
entries the longest word still allows. -/
theorem parse_spec (hT : TreeOf W root) (hlen : Within W a limit)
    (hnext : ∀ k s, k < limit → R k s →
      ∃ s', nextChar s = .ok (a.get k, s') ∧ R (k + 1) s') (buf : DfaAcceptor) :
    ∀ (d k : Nat), limit - k ≤ d → ∀ (node : DfaNode) (s : σ),
      descend (a.take k) root = some node → node.IsInner → R k s →
      ∃ n s', R (n + 1) s' ∧ Unfinished W (a.take n) ∧
        ((∃ c v, leafAt (a.take (n + 1)) root = some (c, v) ∧
            node.parse nextChar buf s = .ok (resultOf c, v, s')) ∨
          (¬ Live W (a.take (n + 1)) ∧ node.parse nextChar buf s = .ok (.empty, buf, s'))) := by
  intro d
  induction d with
  | zero =>
    intro k hd node s hnode hi hR
    have := hlen k ((hT.inner_iff _).mp ⟨node, hnode, hi⟩)
    omega
  | succ d ih =>
    intro k hd node s hnode hi hR
    have hopen : Unfinished W (a.take k) := (hT.inner_iff _).mp ⟨node, hnode, hi⟩
    have hk : k < limit := hlen k hopen
    obtain ⟨s₁, hs₁, hR₁⟩ := hnext k s hk hR
    cases node with
    | accept => exact hi.elim
    | children e c nodes =>
      have hdesc : descend (a.take (k + 1)) root = childAt nodes (a.get k) := by
        rw [Stream'.take_succ', DfaNode.descend_append, hnode, Option.bind_some,
          DfaNode.descend_children]
        cases childAt nodes (a.get k) <;> simp
      have hparse : (DfaNode.children e c nodes).parse nextChar buf s =
          DfaNode.parseChildren nextChar nodes (a.get k) buf s₁ := by
        rw [DfaNode.parse, hs₁]
        rfl
      have hnil : a.take (k + 1) ≠ [] := by
        intro h
        simpa using congrArg List.length h
      rw [hparse, parseChildren_eq]
      -- one entry more has been read: dead, a word, or still open
      cases hc : childAt nodes (a.get k) with
      | none =>
        refine ⟨k, s₁, hR₁, hopen, Or.inr ⟨?_, rfl⟩⟩
        rw [hT.live_iff hnil, hdesc, hc]
        simp
      | some child =>
        rw [hc] at hdesc
        rcases hT.full _ child hdesc with hl | hci | hnil'
        · cases child with
          | children => exact hl.elim
          | accept e' c' v =>
            exact ⟨k, s₁, hR₁, hopen,
              Or.inl ⟨c', v, DfaNode.leafAt_eq_some.mpr ⟨e', hdesc⟩, rfl⟩⟩
        · have h0 : child.childrenCount ≠ 0 := by
            cases child with
            | accept => exact hci.elim
            | children e' c' ns =>
              cases ns with
              | nil => exact hci.elim
              | cons m ms => simp [DfaNode.childrenCount]
          simp only [if_neg h0]
          exact ih (k + 1) (by omega) child s₁ hdesc hci hR₁
        · exact absurd hnil' hnil

/-- **Spec of `nrl_dfa_parse`.** With an empty tree nothing is pulled. Otherwise
the parser reads the longest live prefix of the stream and one entry more, and
reports the acceptor of the word it has read, if it is one. -/
theorem nrlDfaParse_spec (hT : TreeOf W root) (hlen : Within W a limit)
    (hnext : ∀ k s, k < limit → R k s →
      ∃ s', nextChar s = .ok (a.get k, s') ∧ R (k + 1) s') (buf : DfaAcceptor) {s : σ}
    (hR : R 0 s) :
    (W = ∅ ∧ nrlDfaParse nextChar root buf s = .ok (.empty, buf, s)) ∨
    ∃ n s', R (n + 1) s' ∧ Unfinished W (a.take n) ∧
      ((∃ c v, leafAt (a.take (n + 1)) root = some (c, v) ∧
          nrlDfaParse nextChar root buf s = .ok (resultOf c, v, s')) ∨
        (¬ Live W (a.take (n + 1)) ∧
          nrlDfaParse nextChar root buf s = .ok (.empty, buf, s'))) := by
  unfold nrlDfaParse
  by_cases hW : W = ∅
  · rw [if_pos (hT.childrenCount_eq_zero.mpr hW)]
    exact Or.inl ⟨hW, rfl⟩
  · rw [if_neg (fun h => hW (hT.childrenCount_eq_zero.mp h))]
    have hi := hT.root_isInner (Set.nonempty_iff_ne_empty.mpr hW)
    exact Or.inr (parse_spec hT hlen hnext buf limit 0 (by omega) root s
      (DfaNode.descend_nil _) hi hR)

end Parse

/-! ### Keys -/

/-- `w` is a sequence of input `i`: its own, or the xterm alias of backspace. -/
def InputKey (t : Terminfo) (envTerm : List Byte) (i : Nat) (w : List Byte) : Prop :=
  (i < tiiCount ∧ nrlLookupInput t i = some w) ∨
    (strstr envTerm (ascii "xterm") ∧ i = TerminfoInput.keyBackspace.id ∧ w = xtermBackspace)

/-- `w` is the sequence of custom key `i`. -/
def CustomKey (t : Terminfo) (i : Nat) (w : List Byte) : Prop :=
  i < ticCount ∧ nrlLookupCustom t i = some w

/-- Sequences of different identifiers are not prefixes of each other; in
particular they differ. On xterm the backspace alias counts as a sequence. -/
def Terminfo.Unambiguous (t : Terminfo) (envTerm : List Byte) : Prop :=
  ∀ e ∈ dfaEntries t envTerm, ∀ e' ∈ dfaEntries t envTerm,
    e.sequence <+: e'.sequence → e = e'

theorem Terminfo.Unambiguous.prefixFree {t : Terminfo} {envTerm : List Byte}
    (h : t.Unambiguous envTerm) : PrefixFree (dfaSequences t envTerm) := by
  intro v hv w hw hp
  obtain ⟨e, he, rfl⟩ := hv
  obtain ⟨e', he', rfl⟩ := hw
  rw [h e he e' he' hp]

theorem inputKey_iff {t : Terminfo} {envTerm : List Byte} {i : Nat} {w : List Byte} :
    InputKey t envTerm i w ↔ ⟨w, ⟨i⟩, false⟩ ∈ dfaEntries t envTerm := by
  rw [mem_dfaEntries]
  constructor
  · intro h
    rcases h with ⟨hi, hw⟩ | ⟨hx, rfl, rfl⟩
    · exact Or.inl ⟨i, hi, hw, rfl, rfl⟩
    · exact Or.inr (Or.inl ⟨hx, rfl⟩)
  · intro h
    rcases h with ⟨j, hj, hw, ha, -⟩ | ⟨hx, he⟩ | ⟨j, -, -, -, hc⟩
    · obtain rfl : i = j := congrArg DfaAcceptor.bits ha
      exact Or.inl ⟨hj, hw⟩
    · simp only [DfaEntry.mk.injEq, DfaAcceptor.mk.injEq, and_true] at he
      exact Or.inr ⟨hx, he.2, he.1⟩
    · exact absurd hc (by simp)

theorem customKey_iff {t : Terminfo} (envTerm : List Byte) {i : Nat} {w : List Byte} :
    CustomKey t i w ↔ ⟨w, ⟨i⟩, true⟩ ∈ dfaEntries t envTerm := by
  rw [mem_dfaEntries]
  constructor
  · intro h
    obtain ⟨hi, hw⟩ := h
    exact Or.inr (Or.inr ⟨i, hi, hw, rfl, rfl⟩)
  · intro h
    rcases h with ⟨j, -, -, -, hc⟩ | ⟨-, he⟩ | ⟨j, hj, hw, ha, -⟩
    · exact absurd hc (by simp)
    · exact absurd (congrArg DfaEntry.custom he) (by simp)
    · obtain rfl : i = j := congrArg DfaAcceptor.bits ha
      exact ⟨hj, hw⟩

theorem nrlDfaBuild_leafAt {t : Terminfo} (ht : t.Loadable) {envTerm : List Byte}
    (hu : t.Unambiguous envTerm) {root : DfaNode}
    (h : nrlDfaBuild t envTerm dfaRoot = .ok root) {e : DfaEntry}
    (he : e ∈ dfaEntries t envTerm) :
    leafAt e.sequence root = some (e.custom, e.accept) := by
  have hseq := ht.sequence_ne_nil envTerm
  have hfold := congrFun (insertAll_leafAt treeOf_empty hseq h) e.sequence
  rw [hfold]
  refine foldl_recordEntry_of_agree (fun e he e' he' heq => ?_) (fun e' he' => ?_) e he
  · rw [hu e he e' he' (heq ▸ List.prefix_rfl)]
    exact ⟨rfl, rfl⟩
  · cases hs : e'.sequence with
    | nil => exact absurd hs (hseq e' he')
    | cons b p => rfl

theorem nrlDfaBuild_leafAt_iff {t : Terminfo} (ht : t.Loadable) {envTerm : List Byte}
    (hu : t.Unambiguous envTerm) {root : DfaNode}
    (h : nrlDfaBuild t envTerm dfaRoot = .ok root) {w : List Byte} {c : Bool}
    {v : DfaAcceptor} :
    leafAt w root = some (c, v) ↔ ⟨w, v, c⟩ ∈ dfaEntries t envTerm := by
  constructor
  · intro hl
    have hw : w ∈ dfaSequences t envTerm := (nrlDfaBuild_treeOf ht h).mem_of_leafAt hl
    obtain ⟨e, he, rfl⟩ := hw
    rw [nrlDfaBuild_leafAt ht hu h he, Option.some.injEq, Prod.mk.injEq] at hl
    obtain ⟨rfl, rfl⟩ := hl
    exact he
  · intro he
    exact nrlDfaBuild_leafAt ht hu h he

/-! ### Recognition -/

/-- A stream read through a counter. -/
def pull (a : Stream' Byte) (k : Nat) : Except Fault (Byte × Nat) := .ok (a.get k, k + 1)

theorem exists_length_le (es : List DfaEntry) : ∃ limit, ∀ w ∈ sequences es, w.length ≤ limit := by
  induction es with
  | nil => exact ⟨0, fun w hw => by simp at hw⟩
  | cons e es ih =>
    obtain ⟨limit, hlimit⟩ := ih
    refine ⟨max e.sequence.length limit, fun w hw => ?_⟩
    rw [sequences_cons] at hw
    rcases hw with rfl | hw
    · exact Nat.le_max_left _ _
    · exact (hlimit w hw).trans (Nat.le_max_right _ _)

/-- The parser over a plain stream: it accepts the one word of the table that
begins the stream, and otherwise looks one entry beyond the longest live prefix. -/
theorem nrlDfaParse_pull {W : Set (List Byte)} {root : DfaNode} (hT : TreeOf W root)
    {a : Stream' Byte} {limit : Nat} (hlen : Within W a limit) (buf : DfaAcceptor) :
    (W = ∅ ∧ nrlDfaParse (pull a) root buf 0 = .ok (.empty, buf, 0)) ∨
    (∃ w c v, Begins w a ∧ leafAt w root = some (c, v) ∧
      nrlDfaParse (pull a) root buf 0 = .ok (resultOf c, v, w.length)) ∨
    ∃ n, W.Nonempty ∧ IsGreatest {m | Live W (a.take m)} n ∧ (∀ w ∈ W, ¬ Begins w a) ∧
      nrlDfaParse (pull a) root buf 0 = .ok (.empty, buf, n + 1) := by
  rcases @nrlDfaParse_spec _ (pull a) a (fun k s => s = k) limit _ root hT hlen
    (fun k s _ hs => ⟨k + 1, by rw [hs, pull], rfl⟩) buf 0 rfl with
    h | ⟨n, s', rfl, hopen, ⟨c, v, hleaf, h⟩ | ⟨hdead, h⟩⟩
  · exact Or.inl h
  · refine Or.inr (Or.inl ⟨a.take (n + 1), c, v, begins_take _ _, hleaf, ?_⟩)
    rw [h, Stream'.length_take]
  · have hnone := hT.prefixFree.none_begins hopen hdead
    obtain ⟨w, hw, -⟩ := hopen.live
    exact Or.inr (Or.inr ⟨n, ⟨w, hw⟩, longestLive hopen.live hdead, hnone, h⟩)

/-- An identifier is returned exactly for the entry whose sequence begins the stream. -/
theorem nrlDfaParse_entry_iff {t : Terminfo} (ht : t.Loadable) {envTerm : List Byte}
    (hu : t.Unambiguous envTerm) {root : DfaNode}
    (hroot : nrlDfaBuild t envTerm dfaRoot = .ok root) (a : Stream' Byte) (buf v : DfaAcceptor)
    (c : Bool) (n : Nat) :
    nrlDfaParse (pull a) root buf 0 = .ok (resultOf c, v, n) ↔
      ∃ w, ⟨w, v, c⟩ ∈ dfaEntries t envTerm ∧ Begins w a ∧ n = w.length := by
  have hT := nrlDfaBuild_treeOf ht hroot
  have hkey := fun w c v => @nrlDfaBuild_leafAt_iff t ht envTerm hu root hroot w c v
  obtain ⟨limit, hlen⟩ := exists_length_le (dfaEntries t envTerm)
  have hmem : ∀ w, ⟨w, v, c⟩ ∈ dfaEntries t envTerm → w ∈ dfaSequences t envTerm :=
    fun w he => ⟨_, he, rfl⟩
  rcases nrlDfaParse_pull hT (within_of_length_le hlen a) buf with
    ⟨hempty, h⟩ | ⟨w, c', v', hb, hleaf, h⟩ | ⟨m, -, -, hnone, h⟩
  · rw [h]
    constructor
    · intro heq
      cases c <;> cases heq
    · intro hentry
      obtain ⟨w, he, -, -⟩ := hentry
      exact absurd (hempty ▸ hmem w he) (Set.notMem_empty w)
  · rw [h]
    constructor
    · intro heq
      obtain ⟨hc, heq⟩ := Prod.mk.inj (Except.ok.inj heq)
      obtain ⟨rfl, rfl⟩ := Prod.mk.inj heq
      obtain rfl : c' = c := resultOf_injective hc
      exact ⟨w, (hkey w c' v').mp hleaf, hb, rfl⟩
    · intro hentry
      obtain ⟨w', he, hb', rfl⟩ := hentry
      have hw : w ∈ dfaSequences t envTerm := ⟨_, (hkey w c' v').mp hleaf, rfl⟩
      obtain rfl := hT.prefixFree.unique (hmem w' he) hw hb' hb
      obtain ⟨rfl, rfl⟩ := Prod.mk.inj (Option.some.inj (((hkey w' c v).mpr he).symm.trans hleaf))
      rfl
  · rw [h]
    constructor
    · intro heq
      cases c <;> cases heq
    · intro hentry
      obtain ⟨w, he, hb, -⟩ := hentry
      exact absurd hb (hnone w (hmem w he))

/-- **The tree recognises exactly its table.** The build is free of faults, and
the parse of any stream returns identifier `i` exactly when a sequence of `i`
begins the stream, having pulled as many characters as it is long. If no sequence
begins the stream, one character more than the longest prefix of the stream some
sequence continues is pulled, and none at all if there are no sequences. -/
theorem nrlDfaParse_recognises {t : Terminfo} (ht : t.Loadable) {envTerm : List Byte}
    (hu : t.Unambiguous envTerm) :
    ∃ root, nrlDfaBuild t envTerm dfaRoot = .ok root ∧
      ∀ (a : Stream' Byte) (buf : DfaAcceptor),
        (∀ i n, nrlDfaParse (pull a) root buf 0 = .ok (.input, ⟨i⟩, n) ↔
          ∃ w, InputKey t envTerm i w ∧ Begins w a ∧ n = w.length) ∧
        (∀ i n, nrlDfaParse (pull a) root buf 0 = .ok (.custom, ⟨i⟩, n) ↔
          ∃ w, CustomKey t i w ∧ Begins w a ∧ n = w.length) ∧
        (dfaSequences t envTerm = ∅ →
          nrlDfaParse (pull a) root buf 0 = .ok (.empty, buf, 0)) ∧
        ((dfaSequences t envTerm).Nonempty →
          (∀ w ∈ dfaSequences t envTerm, ¬ Begins w a) →
          ∃ n, IsGreatest {m | Live (dfaSequences t envTerm) (a.take m)} n ∧
            nrlDfaParse (pull a) root buf 0 = .ok (.empty, buf, n + 1)) := by
  obtain ⟨root, hroot⟩ := (nrlDfaBuild_ok_iff ht envTerm).mpr hu.prefixFree
  have hT := nrlDfaBuild_treeOf ht hroot
  refine ⟨root, hroot, fun a buf => ⟨fun i n => ?_, fun i n => ?_, fun hempty => ?_,
    fun hne hnone => ?_⟩⟩
  · simp only [inputKey_iff]
    exact nrlDfaParse_entry_iff ht hu hroot a buf ⟨i⟩ false n
  · simp only [customKey_iff envTerm]
    exact nrlDfaParse_entry_iff ht hu hroot a buf ⟨i⟩ true n
  · rw [nrlDfaParse, if_pos (hT.childrenCount_eq_zero.mpr hempty)]
  · obtain ⟨limit, hlen⟩ := exists_length_le (dfaEntries t envTerm)
    rcases nrlDfaParse_pull hT (within_of_length_le hlen a) buf with
      ⟨hempty, -⟩ | ⟨w, c, v, hb, hleaf, -⟩ | ⟨n, -, hgreatest, -, h⟩
    · exact absurd hempty hne.ne_empty
    · exact absurd hb (hnone w ⟨_, (nrlDfaBuild_leafAt_iff ht hu hroot).mp hleaf, rfl⟩)
    · exact ⟨n, hgreatest, h⟩

instance (t : Terminfo) (envTerm : List Byte) : Decidable (t.Unambiguous envTerm) :=
  inferInstanceAs (Decidable (∀ e ∈ dfaEntries t envTerm, ∀ e' ∈ dfaEntries t envTerm,
    e.sequence <+: e'.sequence → e = e'))

theorem xtermTerminfo_unambiguous : xtermTerminfo.Unambiguous (ascii "xterm") := by
  decide +kernel

theorem nrlDfaParse_recognises_xterm :
    ∃ root, nrlDfaBuild xtermTerminfo (ascii "xterm") dfaRoot = .ok root ∧
      ∀ (a : Stream' Byte) (buf : DfaAcceptor),
        (∀ i n, nrlDfaParse (pull a) root buf 0 = .ok (.input, ⟨i⟩, n) ↔
          ∃ w, InputKey xtermTerminfo (ascii "xterm") i w ∧ Begins w a ∧ n = w.length) ∧
        (∀ i n, nrlDfaParse (pull a) root buf 0 = .ok (.custom, ⟨i⟩, n) ↔
          ∃ w, CustomKey xtermTerminfo i w ∧ Begins w a ∧ n = w.length) ∧
        (dfaSequences xtermTerminfo (ascii "xterm") = ∅ →
          nrlDfaParse (pull a) root buf 0 = .ok (.empty, buf, 0)) ∧
        ((dfaSequences xtermTerminfo (ascii "xterm")).Nonempty →
          (∀ w ∈ dfaSequences xtermTerminfo (ascii "xterm"), ¬ Begins w a) →
          ∃ n, IsGreatest {m | Live (dfaSequences xtermTerminfo (ascii "xterm")) (a.take m)} n ∧
            nrlDfaParse (pull a) root buf 0 = .ok (.empty, buf, n + 1)) :=
  nrlDfaParse_recognises xtermTerminfo_loadable xtermTerminfo_unambiguous

/-- On xterm a control-H is the backspace key, whose table sequence it is not:
the table's own sequences are no prefixes of each other. -/
theorem nrlDfaParse_controlH :
    (∀ e ∈ dfaEntries xtermTerminfo (ascii "vt100"),
      ∀ e' ∈ dfaEntries xtermTerminfo (ascii "vt100"), e.sequence <+: e'.sequence → e = e') ∧
    (∃ root, nrlDfaBuild xtermTerminfo (ascii "xterm") dfaRoot = .ok root ∧
      nrlDfaParse (pull (Stream'.const 0o10)) root ⟨0⟩ 0 = .ok (.input, ⟨2⟩, 1)) ∧
    nrlLookupInput xtermTerminfo 2 = some [0o177] ∧
    ¬ Begins [0o177] (Stream'.const (0o10 : Byte)) := by
  refine ⟨by decide +kernel, ?_, rfl, by decide⟩
  have hbuild : (nrlDfaBuild xtermTerminfo (ascii "xterm") dfaRoot >>= fun root =>
      nrlDfaParse (pull (Stream'.const 0o10)) root ⟨0⟩ 0) = .ok (.input, ⟨2⟩, 1) := by rfl
  exact Run.bind_eq_ok.mp hbuild

end Nanorl
