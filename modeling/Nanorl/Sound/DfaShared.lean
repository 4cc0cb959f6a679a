import Nanorl.Sound.DfaParse

/-!
# Nanorl.Sound.DfaShared

Sequences with more than one owner, and sequences inserted again.

An insertion of a sequence the tree already holds follows the existing path and
writes its acceptor over the one at the end (`dfaInsert_of_leaf`); it makes no
node and, since flags are set where nodes are made, changes no flag. Two things
follow:

* rebuilding over the finished tree ends with the tree it started from
  (`nrlDfaBuilds_idempotent`);
* a sequence of several identifiers is reported with the acceptor of the last
  insertion and the kind of the first one, which agree as long as no sequence is
  shared by an input and a custom key (`nrlDfaParse_owner_iff`).
-/

namespace Nanorl

open PrefixCode (Begins PrefixFree begins_append within_of_length_le)
open DfaNode (childAt descend IsLeaf leafAt)

/-! ### Writing one acceptor -/

/-- The first child with the edge changed, as both loops search. -/
def modifyChild (f : DfaNode → DfaNode) (b : Byte) : List DfaNode → List DfaNode
  | [] => []
  | child :: nodes =>
    if child.edge = b then f child :: nodes else child :: modifyChild f b nodes

/-- The tree with another acceptor at the end of a path. -/
def DfaNode.setAcceptor (v : DfaAcceptor) : List Byte → DfaNode → DfaNode
  | [], accept e c _ => accept e c v
  | [], children e c nodes => children e c nodes
  | _ :: _, accept e c w => accept e c w
  | b :: path, children e c nodes => children e c (modifyChild (setAcceptor v path) b nodes)

section ModifyChild

variable {f g : DfaNode → DfaNode} {b b' : Byte}

theorem modifyChild_modifyChild (hg : ∀ n, (g n).edge = n.edge) (nodes : List DfaNode) :
    modifyChild f b (modifyChild g b nodes) = modifyChild (fun n => f (g n)) b nodes := by
  induction nodes with
  | nil => rfl
  | cons child nodes ih => by_cases h : child.edge = b <;> simp [modifyChild, h, hg, ih]

theorem modifyChild_comm (hf : ∀ n, (f n).edge = n.edge) (hg : ∀ n, (g n).edge = n.edge)
    (hne : b ≠ b') (nodes : List DfaNode) :
    modifyChild f b (modifyChild g b' nodes) = modifyChild g b' (modifyChild f b nodes) := by
  induction nodes with
  | nil => rfl
  | cons child nodes ih =>
    by_cases h : child.edge = b
    · simp [modifyChild, h, hf, hne]
    · by_cases h' : child.edge = b' <;> simp [modifyChild, h, h', hg, Ne.symm hne, ih]

theorem modifyChild_of_childAt {child : DfaNode} (hf : f child = child) :
    ∀ {nodes : List DfaNode}, childAt nodes b = some child → modifyChild f b nodes = nodes := by
  intro nodes
  induction nodes with
  | nil => intro _; rfl
  | cons m nodes ih =>
    intro h
    by_cases hm : m.edge = b
    · obtain rfl : m = child := by simpa [childAt, hm] using h
      simp [modifyChild, hm, hf]
    · simp only [modifyChild, if_neg hm]
      rw [ih (by simpa [childAt, hm] using h)]

/-- The search of an insertion that finds its child. -/
theorem insertChild_of_childAt {rest : DfaNode → Except Fault DfaNode} {custom : Bool}
    {child : DfaNode} (hrest : rest child = .ok (f child)) :
    ∀ {nodes : List DfaNode}, childAt nodes b = some child →
      insertChild rest b custom nodes = .ok (modifyChild f b nodes) := by
  intro nodes
  induction nodes with
  | nil => intro h; simp [childAt] at h
  | cons m nodes ih =>
    intro h
    by_cases hm : m.edge = b
    · obtain rfl : m = child := by simpa [childAt, hm] using h
      simp only [insertChild, modifyChild, if_pos hm, hrest]
      rfl
    · simp only [insertChild, modifyChild, if_neg hm]
      rw [ih (by simpa [childAt, hm] using h)]
      rfl

end ModifyChild

namespace DfaNode

@[simp] theorem setAcceptor_edge (v : DfaAcceptor) (path : List Byte) (node : DfaNode) :
    (node.setAcceptor v path).edge = node.edge := by
  cases path <;> cases node <;> rfl

/-- The later of two acceptors written at one place stays. -/
theorem setAcceptor_setAcceptor (v v' : DfaAcceptor) : ∀ (path : List Byte) (node : DfaNode),
    (node.setAcceptor v' path).setAcceptor v path = node.setAcceptor v path
  | [], accept _ _ _ => rfl
  | [], children _ _ _ => rfl
  | _ :: _, accept _ _ _ => rfl
  | b :: path, children e c nodes => by
      simp only [setAcceptor]
      rw [modifyChild_modifyChild (setAcceptor_edge v' path)]
      congr 2
      funext n
      exact setAcceptor_setAcceptor v v' path n

/-- Acceptors written at different places do not meet. -/
theorem setAcceptor_comm (v v' : DfaAcceptor) : ∀ {p q : List Byte}, p ≠ q → ∀ node : DfaNode,
    (node.setAcceptor v' q).setAcceptor v p = (node.setAcceptor v p).setAcceptor v' q
  | [], [], h, _ => absurd rfl h
  | [], _ :: _, _, accept _ _ _ => rfl
  | [], _ :: _, _, children _ _ _ => rfl
  | _ :: _, [], _, accept _ _ _ => rfl
  | _ :: _, [], _, children _ _ _ => rfl
  | _ :: _, _ :: _, _, accept _ _ _ => rfl
  | b :: p, b' :: q, h, children e c nodes => by
      simp only [setAcceptor]
      congr 1
      by_cases hb : b = b'
      · subst hb
        rw [modifyChild_modifyChild (setAcceptor_edge v' q),
          modifyChild_modifyChild (setAcceptor_edge v p)]
        congr 1
        funext n
        exact setAcceptor_comm v v' (fun hpq => h (congrArg (b :: ·) hpq)) n
      · exact modifyChild_comm (setAcceptor_edge v p) (setAcceptor_edge v' q) hb nodes

/-- A path to an acceptor goes through a child. -/
theorem leafAt_cons {b : Byte} {path : List Byte} {node : DfaNode} {x : Bool × DfaAcceptor}
    (h : leafAt (b :: path) node = some x) :
    ∃ e c nodes child, node = children e c nodes ∧ childAt nodes b = some child ∧
      leafAt path child = some x := by
  cases node with
  | accept => simp [leafAt, descend] at h
  | children e c nodes =>
    cases hc : childAt nodes b with
    | none => simp [leafAt, descend_children, hc] at h
    | some child =>
      refine ⟨e, c, nodes, child, rfl, hc, ?_⟩
      simpa only [leafAt, descend_children, hc, Option.bind_some] using h

theorem setAcceptor_leafAt : ∀ {path : List Byte} {node : DfaNode} {c : Bool} {v : DfaAcceptor},
    leafAt path node = some (c, v) → node.setAcceptor v path = node
  | [], accept _ _ _, _, _, h => by
      obtain ⟨rfl, rfl⟩ := Prod.mk.inj (Option.some.inj h)
      rfl
  | [], children _ _ _, _, _, _ => rfl
  | _ :: _, _, _, _, h => by
      obtain ⟨_, _, _, child, rfl, hc, hl⟩ := leafAt_cons h
      simp only [setAcceptor]
      rw [modifyChild_of_childAt (setAcceptor_leafAt hl) hc]

end DfaNode

/-- **Inserting a sequence again** writes its acceptor and nothing else. -/
theorem dfaInsert_of_leaf {v : DfaAcceptor} {custom : Bool} :
    ∀ {sequence : List Byte} {node : DfaNode} {x : Bool × DfaAcceptor},
      leafAt sequence node = some x →
        dfaInsert v custom sequence node = .ok (node.setAcceptor v sequence)
  | [], .accept _ _ _, _, _ => rfl
  | [], .children _ _ _, _, h => by simp [leafAt] at h
  | _ :: _, _, _, h => by
      obtain ⟨_, _, _, child, rfl, hc, hl⟩ := DfaNode.leafAt_cons h
      rw [dfaInsert, insertChild_of_childAt (dfaInsert_of_leaf hl) hc]
      rfl

/-! ### Which insertion of a sequence counts -/

/-- The entry of a sequence inserted first. -/
def firstEntry (es : List DfaEntry) (w : List Byte) : Option DfaEntry :=
  es.find? fun e => e.sequence = w

/-- The entry of a sequence inserted last. -/
def lastEntry (es : List DfaEntry) (w : List Byte) : Option DfaEntry :=
  es.reverse.find? fun e => e.sequence = w

theorem lastEntry_cons (e : DfaEntry) (es : List DfaEntry) (w : List Byte) :
    lastEntry (e :: es) w = (lastEntry es w).or (if e.sequence = w then some e else none) := by
  by_cases h : e.sequence = w <;> simp [lastEntry, h]

theorem lastEntry_eq_some {es : List DfaEntry} {w : List Byte} {l : DfaEntry}
    (h : lastEntry es w = some l) : l ∈ es ∧ l.sequence = w :=
  ⟨List.mem_reverse.mp (List.mem_of_find?_eq_some h), by simpa using List.find?_some h⟩

theorem firstEntry_eq_some {es : List DfaEntry} {w : List Byte} {f : DfaEntry}
    (h : firstEntry es w = some f) : f ∈ es ∧ f.sequence = w :=
  ⟨List.mem_of_find?_eq_some h, by simpa using List.find?_some h⟩

theorem lastEntry_isSome {es : List DfaEntry} {w : List Byte} :
    (lastEntry es w).isSome ↔ w ∈ sequences es := by
  simp [lastEntry, sequences]

theorem firstEntry_isSome {es : List DfaEntry} {w : List Byte} :
    (firstEntry es w).isSome ↔ w ∈ sequences es := by
  simp [firstEntry, sequences]

/-- The dictionary holds the flag of the first insertion, unless there was one
before, and the acceptor of the last. -/
theorem foldl_recordEntry (es : List DfaEntry) (w : List Byte) :
    ∀ dict : List Byte → Option (Bool × DfaAcceptor),
      es.foldl recordEntry dict w = (lastEntry es w).elim (dict w) fun l =>
        some ((((dict w).map Prod.fst).or ((firstEntry es w).map DfaEntry.custom)).getD l.custom,
          l.accept) := by
  induction es with
  | nil => intro dict; rfl
  | cons e es ih =>
    intro dict
    rw [List.foldl_cons, ih, lastEntry_cons]
    by_cases h : e.sequence = w
    · cases hl : lastEntry es w <;> cases hd : dict w <;>
        simp [recordEntry, firstEntry, h, hd]
    · cases hl : lastEntry es w <;>
        simp [recordEntry, firstEntry, h, Ne.symm h]

theorem nrlDfaBuild_leafAt_shared {t : Terminfo} (ht : t.Loadable) {envTerm : List Byte}
    {root : DfaNode} (h : nrlDfaBuild t envTerm dfaRoot = .ok root) {w : List Byte}
    {f l : DfaEntry} (hf : firstEntry (dfaEntries t envTerm) w = some f)
    (hl : lastEntry (dfaEntries t envTerm) w = some l) :
    leafAt w root = some (f.custom, l.accept) := by
  have hseq := ht.sequence_ne_nil envTerm
  have hfold := congrFun (insertAll_leafAt treeOf_empty hseq h) w
  have hnone : leafAt w dfaRoot = none := by
    obtain ⟨hmem, rfl⟩ := firstEntry_eq_some hf
    cases hw : f.sequence with
    | nil => exact absurd hw (hseq f hmem)
    | cons b p => rfl
  rw [hfold, foldl_recordEntry, hl, hf, hnone]
  rfl

/-! ### Building again -/

/-- The acceptors of a run of insertions, written into a tree that holds their
sequences. -/
def overwrite (es : List DfaEntry) (node : DfaNode) : DfaNode :=
  es.foldl (fun node e => node.setAcceptor e.accept e.sequence) node

theorem insertAll_of_leaves {W : Set (List Byte)} : ∀ {es : List DfaEntry} {root : DfaNode},
    TreeOf W root → (∀ e ∈ es, e.sequence ≠ []) → sequences es ⊆ W →
      insertAll es root = .ok (overwrite es root) := by
  intro es
  induction es with
  | nil => intro root _ _ _; rfl
  | cons e es ih =>
    intro root hT hne hsub
    rw [sequences_cons, Set.insert_subset_iff] at hsub
    obtain ⟨he, hsub⟩ := hsub
    obtain ⟨x, hx⟩ := Option.isSome_iff_exists.mp (hT.leafAt_isSome.mpr he)
    have hins : dfaInsert e.accept e.custom e.sequence root =
        .ok (root.setAcceptor e.accept e.sequence) := dfaInsert_of_leaf hx
    have hT' := hT.insert (hne e List.mem_cons_self) hins
    rw [Set.insert_eq_of_mem he] at hT'
    exact Run.exec_cons_ok.mpr
      ⟨_, hins, ih hT' (fun e' he' => hne e' (List.mem_cons_of_mem _ he')) hsub⟩

/-- What was at the end of a sequence before its insertions does not matter. -/
theorem overwrite_setAcceptor {w : List Byte} (v : DfaAcceptor) :
    ∀ {es : List DfaEntry}, w ∈ sequences es → ∀ node : DfaNode,
      overwrite es (node.setAcceptor v w) = overwrite es node := by
  intro es
  induction es with
  | nil => intro hw; simp at hw
  | cons e es ih =>
    intro hw node
    simp only [overwrite, List.foldl_cons]
    by_cases h : e.sequence = w
    · rw [h, DfaNode.setAcceptor_setAcceptor]
    · have hw' : w ∈ sequences es := by
        rw [sequences_cons] at hw
        exact hw.resolve_left (Ne.symm h)
      rw [DfaNode.setAcceptor_comm _ _ h]
      exact ih hw' _

/-- Where the tree already holds the last acceptor of every sequence, the
insertions change nothing. -/
theorem overwrite_self {node : DfaNode} : ∀ {es : List DfaEntry},
    (∀ w l, lastEntry es w = some l → ∃ c, leafAt w node = some (c, l.accept)) →
      overwrite es node = node := by
  intro es
  induction es with
  | nil => intro _; rfl
  | cons e es ih =>
    intro h
    have hrest : overwrite es node = node := by
      refine ih fun w l hl => h w l ?_
      rw [lastEntry_cons, hl, Option.some_or]
    simp only [overwrite, List.foldl_cons]
    by_cases he : e.sequence ∈ sequences es
    · exact (overwrite_setAcceptor e.accept he node).trans hrest
    · have hlast : lastEntry (e :: es) e.sequence = some e := by
        have hnone : lastEntry es e.sequence = none := by
          rw [← Option.not_isSome_iff_eq_none, lastEntry_isSome]
          exact he
        rw [lastEntry_cons, hnone, if_pos rfl, Option.none_or]
      obtain ⟨c, hc⟩ := h _ _ hlast
      rw [DfaNode.setAcceptor_leafAt hc]
      exact hrest

/-- A build over the finished tree of its table leaves that tree. -/
theorem nrlDfaBuild_self {t : Terminfo} (ht : t.Loadable) {envTerm : List Byte} {root : DfaNode}
    (h : nrlDfaBuild t envTerm dfaRoot = .ok root) :
    nrlDfaBuild t envTerm root = .ok root := by
  have hover := insertAll_of_leaves (nrlDfaBuild_treeOf ht h) (ht.sequence_ne_nil envTerm)
    (Set.Subset.refl (dfaSequences t envTerm))
  refine hover.trans (congrArg Except.ok (overwrite_self fun w l hl => ?_))
  obtain ⟨f, hf⟩ : ∃ f, firstEntry (dfaEntries t envTerm) w = some f :=
    Option.isSome_iff_exists.mp (firstEntry_isSome.mpr
      (lastEntry_isSome.mp (Option.isSome_iff_exists.mpr ⟨l, hl⟩)))
  exact ⟨f.custom, nrlDfaBuild_leafAt_shared ht h hf hl⟩

/-- What a parse of the stream `a` reports is owned in its kind: an input whose
sequence was read, or a custom key whose sequence was read. A sequence that
begins the stream is reported as the identifier that was inserted last. -/
structure ReportsOwner (t : Terminfo) (envTerm : List Byte) (root : DfaNode) (a : Stream' Byte)
    (buf : DfaAcceptor) : Prop where
  input : ∀ i n, nrlDfaParse (pull a) root buf 0 = .ok (.input, ⟨i⟩, n) →
    InputKey t envTerm i (a.take n)
  custom : ∀ j n, nrlDfaParse (pull a) root buf 0 = .ok (.custom, ⟨j⟩, n) →
    CustomKey t j (a.take n)
  last : ∀ w l, Begins w a → lastEntry (dfaEntries t envTerm) w = some l →
    nrlDfaParse (pull a) root buf 0 = .ok (resultOf l.custom, l.accept, w.length)

/-- A built tree reports a sequence in the kind it was inserted with first, and
with the identifier it was inserted with last. -/
theorem nrlDfaParse_first_last {t : Terminfo} (ht : t.Loadable) {envTerm : List Byte}
    {root : DfaNode} (hroot : nrlDfaBuild t envTerm dfaRoot = .ok root) {a : Stream' Byte}
    {w : List Byte} {f l : DfaEntry} (hb : Begins w a)
    (hf : firstEntry (dfaEntries t envTerm) w = some f)
    (hl : lastEntry (dfaEntries t envTerm) w = some l) (buf : DfaAcceptor) :
    nrlDfaParse (pull a) root buf 0 = .ok (resultOf f.custom, l.accept, w.length) := by
  have hT := nrlDfaBuild_treeOf ht hroot
  have hw : w ∈ dfaSequences t envTerm := firstEntry_isSome.mp (hf ▸ rfl)
  obtain ⟨limit, hlen⟩ := exists_length_le (dfaEntries t envTerm)
  rcases nrlDfaParse_pull hT (within_of_length_le hlen a) buf with
    ⟨hempty, -⟩ | ⟨w', c, v, hb', hleaf, h⟩ | ⟨m, -, -, hnone, -⟩
  · exact absurd (hempty ▸ hw) (Set.notMem_empty w)
  · have hw' : w' ∈ dfaSequences t envTerm := hT.mem_of_leafAt hleaf
    obtain rfl := hT.prefixFree.unique hw hw' hb hb'
    rw [nrlDfaBuild_leafAt_shared ht hroot hf hl] at hleaf
    obtain ⟨rfl, rfl⟩ := Prod.mk.inj (Option.some.inj hleaf)
    exact h
  · exact absurd hb (hnone w hw)

/-- The inputs of a table, with the xterm alias, are inserted before its custom keys. -/
theorem dfaEntries_split (t : Terminfo) (envTerm : List Byte) :
    ∃ ins cus, dfaEntries t envTerm = ins ++ cus ∧ (∀ e ∈ ins, e.custom = false) ∧
      ∀ e ∈ cus, e.custom = true := by
  refine ⟨_, _, rfl, fun e he => ?_, fun e he => ?_⟩
  · rcases List.mem_append.mp he with he | he
    · obtain ⟨-, -, -, -, hc⟩ := mem_tableEntries.mp he
      exact hc
    · split at he
      · rw [List.mem_singleton.mp he]
      · exact absurd he List.not_mem_nil
  · obtain ⟨-, -, -, -, hc⟩ := mem_tableEntries.mp he
    exact hc

/-- A sequence of both an input and a custom key is first inserted as the one and
last as the other. -/
theorem firstEntry_lastEntry_shared {t : Terminfo} {envTerm w : List Byte} {i j : Nat}
    (hi : InputKey t envTerm i w) (hj : CustomKey t j w) :
    ∃ f l, firstEntry (dfaEntries t envTerm) w = some f ∧ f.custom = false ∧
      lastEntry (dfaEntries t envTerm) w = some l ∧ l.custom = true := by
  obtain ⟨ins, cus, hsplit, hins, hcus⟩ := dfaEntries_split t envTerm
  have hi' := inputKey_iff.mp hi
  have hj' := (customKey_iff envTerm).mp hj
  rw [hsplit, List.mem_append] at hi' hj'
  have hi' := hi'.resolve_right fun h => by simpa using hcus _ h
  have hj' := hj'.resolve_left fun h => by simpa using hins _ h
  obtain ⟨f, hf⟩ := Option.isSome_iff_exists.mp (firstEntry_isSome.mpr ⟨_, hi', rfl⟩)
  obtain ⟨l, hl⟩ := Option.isSome_iff_exists.mp (lastEntry_isSome.mpr ⟨_, hj', rfl⟩)
  refine ⟨f, l, ?_, hins f (firstEntry_eq_some hf).1, ?_, hcus l (lastEntry_eq_some hl).1⟩
  · rw [hsplit, firstEntry, List.find?_append, ← firstEntry, hf, Option.some_or]
  · rw [hsplit, lastEntry, List.reverse_append, List.find?_append, ← lastEntry, hl, Option.some_or]

/-- Apart from that, the insertions of one sequence are of one kind. -/
theorem firstEntry_custom_eq {t : Terminfo} {envTerm w : List Byte}
    (h : ∀ i j w, InputKey t envTerm i w → ¬ CustomKey t j w) {f l : DfaEntry}
    (hf : firstEntry (dfaEntries t envTerm) w = some f)
    (hl : lastEntry (dfaEntries t envTerm) w = some l) : f.custom = l.custom := by
  obtain ⟨hfm, hfw⟩ := firstEntry_eq_some hf
  obtain ⟨hlm, hlw⟩ := lastEntry_eq_some hl
  obtain ⟨fs, ⟨i⟩, fc⟩ := f
  obtain ⟨ls, ⟨j⟩, lc⟩ := l
  obtain rfl : fs = w := hfw
  obtain rfl : ls = fs := hlw
  cases fc <;> cases lc
  · rfl
  · exact absurd ((customKey_iff envTerm).mpr hlm) (h i j ls (inputKey_iff.mpr hfm))
  · exact absurd ((customKey_iff envTerm).mpr hfm) (h j i ls (inputKey_iff.mpr hlm))
  · rfl

/-- **Kind and identifier agree exactly when no sequence is shared across the
kinds.** The flag of an acceptor is set when its node is made, by the first
insertion, and its identifier by the last; inputs, the xterm alias among them,
are inserted before custom keys. -/
theorem nrlDfaParse_owner_iff {t : Terminfo} (ht : t.Loadable) (envTerm : List Byte) :
    (∃ root, nrlDfaBuild t envTerm dfaRoot = .ok root ∧
      ∀ (a : Stream' Byte) (buf : DfaAcceptor), ReportsOwner t envTerm root a buf) ↔
    PrefixFree (dfaSequences t envTerm) ∧
      ∀ i j w, InputKey t envTerm i w → ¬ CustomKey t j w := by
  constructor
  · intro howner
    obtain ⟨root, hroot, howner⟩ := howner
    refine ⟨(nrlDfaBuild_ok_iff ht envTerm).mp ⟨root, hroot⟩, fun i j w hi hj => ?_⟩
    obtain ⟨f, l, hf, hfc, hl, hlc⟩ := firstEntry_lastEntry_shared hi hj
    have hb : Begins w (w ++ₛ Stream'.const 0) := begins_append w _
    have hlast := (howner _ ⟨0⟩).last w l hb hl
    rw [nrlDfaParse_first_last ht hroot hb hf hl, hfc, hlc] at hlast
    exact absurd (Prod.mk.inj (Except.ok.inj hlast)).1 (by decide)
  · intro hcond
    obtain ⟨hfree, hshared⟩ := hcond
    obtain ⟨root, hroot⟩ := (nrlDfaBuild_ok_iff ht envTerm).mpr hfree
    refine ⟨root, hroot, fun a buf => ?_⟩
    have hlast : ∀ w l, Begins w a → lastEntry (dfaEntries t envTerm) w = some l →
        nrlDfaParse (pull a) root buf 0 = .ok (resultOf l.custom, l.accept, w.length) := by
      intro w l hb hl
      obtain ⟨f, hf⟩ := Option.isSome_iff_exists.mp
        (firstEntry_isSome.mpr (lastEntry_isSome.mp (Option.isSome_iff_exists.mpr ⟨l, hl⟩)))
      rw [nrlDfaParse_first_last ht hroot hb hf hl, firstEntry_custom_eq hshared hf hl]
    -- whatever is reported is the last entry of the sequence that begins the stream
    have howned : ∀ c v n, nrlDfaParse (pull a) root buf 0 = .ok (resultOf c, v, n) →
        ⟨a.take n, v, c⟩ ∈ dfaEntries t envTerm := by
      intro c v n h
      have hT := nrlDfaBuild_treeOf ht hroot
      obtain ⟨limit, hlen⟩ := exists_length_le (dfaEntries t envTerm)
      rcases nrlDfaParse_pull hT (within_of_length_le hlen a) buf with
        ⟨-, h'⟩ | ⟨w, c', v', hb, hleaf, -⟩ | ⟨m, -, -, -, h'⟩
      · rw [h'] at h
        cases c <;> cases h
      · have hw : w ∈ dfaSequences t envTerm := hT.mem_of_leafAt hleaf
        obtain ⟨l, hl⟩ := Option.isSome_iff_exists.mp (lastEntry_isSome.mpr hw)
        rw [hlast w l hb hl] at h
        obtain ⟨hc, h⟩ := Prod.mk.inj (Except.ok.inj h)
        obtain ⟨rfl, rfl⟩ := Prod.mk.inj h
        obtain rfl := resultOf_injective hc
        obtain ⟨hmem, hlw⟩ := lastEntry_eq_some hl
        rw [show a.take w.length = w from hb, ← hlw]
        exact hmem
      · rw [h'] at h
        cases c <;> cases h
    exact ⟨fun i n h => inputKey_iff.mpr (howned false ⟨i⟩ n h),
      fun j n h => (customKey_iff envTerm).mpr (howned true ⟨j⟩ n h), hlast⟩

theorem nrlDfaParse_owner_iff_xterm :
    ∃ root, nrlDfaBuild xtermTerminfo (ascii "xterm") dfaRoot = .ok root ∧
      ∀ (a : Stream' Byte) (buf : DfaAcceptor),
        ReportsOwner xtermTerminfo (ascii "xterm") root a buf := by
  have hkinds : ∀ i j w, InputKey xtermTerminfo (ascii "xterm") i w →
      ¬ CustomKey xtermTerminfo j w := by
    intro i j w hi hj
    have heq := xtermTerminfo_unambiguous _ (inputKey_iff.mp hi) _ ((customKey_iff _).mp hj)
      (List.prefix_refl w)
    cases congrArg DfaEntry.custom heq
  exact (nrlDfaParse_owner_iff xtermTerminfo_loadable (ascii "xterm")).mpr
    ⟨xtermTerminfo_unambiguous.prefixFree, hkinds⟩

/-- A description that gives its left key and its fourth custom key one sequence. -/
def sharedLeftTerminfo : Terminfo :=
  { Terminfo.unloaded with
    inputs := [some (ascii "\x1b[D"), none, none, none, none, none]
    customs := [none, none, none, some (ascii "\x1b[D")] ++ List.replicate 25 none }

/-- The shared sequence is reported as the input with the custom key's number,
which is another input without a sequence. -/
theorem nrlDfaParse_sharedLeft :
    sharedLeftTerminfo.Loadable ∧
      PrefixFree (dfaSequences sharedLeftTerminfo (ascii "vt100")) ∧
      (∃ root, nrlDfaBuild sharedLeftTerminfo (ascii "vt100") dfaRoot = .ok root ∧
        nrlDfaParse (pull (ascii "\x1b[D" ++ₛ Stream'.const 0)) root ⟨0⟩ 0 =
          .ok (.input, ⟨3⟩, 3)) ∧
      ∀ w, ¬ InputKey sharedLeftTerminfo (ascii "vt100") 3 w := by
  have hloadable : sharedLeftTerminfo.Loadable := by decide
  have hbuild : (nrlDfaBuild sharedLeftTerminfo (ascii "vt100") dfaRoot >>= fun root =>
      nrlDfaParse (pull (ascii "\x1b[D" ++ₛ Stream'.const 0)) root ⟨0⟩ 0) =
        .ok (.input, ⟨3⟩, 3) := by rfl
  obtain ⟨root, hroot, hparse⟩ := Run.bind_eq_ok.mp hbuild
  refine ⟨hloadable, (nrlDfaBuild_ok_iff hloadable _).mp ⟨root, hroot⟩, ⟨root, hroot, hparse⟩, ?_⟩
  intro w hw
  rcases hw with ⟨-, hw⟩ | ⟨-, hk, -⟩
  · cases hw
  · cases hk

end Nanorl
