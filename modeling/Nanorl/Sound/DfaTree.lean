import Nanorl.Lib.PrefixCode
import Nanorl.Model.Dfa

/-!
# Nanorl.Sound.DfaTree

What the tree of `dfa.c` holds, and what an insertion does to it.

A tree is seen through `descend`: the node at the end of a path of edges. Two
facts about one call of `dfa_insert` carry everything else:

* `dfaInsert_ok_iff`: the call is free of faults exactly when no acceptor lies
  on a proper prefix of the sequence and no inner node at its end;
* `dfaInsert_descend`: afterwards the sequence leads to an acceptor, its proper
  prefixes lead to inner nodes, and every other path leads where it led before.

The invariant `TreeOf W` says which words the tree holds. It is kept by every
fault-free insertion, and insertions are fault-free exactly as long as the words
stay free of proper prefixes (`insertAll_ok_iff`).
-/

namespace Nanorl

open PrefixCode (Live PrefixFree live_of_mem)

namespace DfaNode

/-- The child entered by an edge: the first one, as both loops search. -/
def childAt (nodes : List DfaNode) (b : Byte) : Option DfaNode :=
  nodes.find? fun n => n.edge == b

/-- The node at the end of a path of edges. -/
def descend : List Byte → DfaNode → Option DfaNode
  | [], node => some node
  | _ :: _, accept _ _ _ => none
  | b :: path, children _ _ nodes => (childAt nodes b).bind (descend path)

@[simp] theorem descend_nil (node : DfaNode) : descend [] node = some node := by
  cases node <;> rfl

theorem descend_children (b : Byte) (path : List Byte) (e : Byte) (c : Bool)
    (nodes : List DfaNode) :
    descend (b :: path) (children e c nodes) = (childAt nodes b).bind (descend path) := rfl

/-- The node is an acceptor. -/
def IsLeaf : DfaNode → Prop
  | accept _ _ _ => True
  | children _ _ _ => False

/-- The node has a child. -/
def IsInner : DfaNode → Prop
  | children _ _ (_ :: _) => True
  | _ => False

instance : DecidablePred IsLeaf
  | accept _ _ _ => isTrue trivial
  | children _ _ _ => isFalse id

/-- No path leads on from a node without children. -/
theorem descend_cons_of_not_inner {n : DfaNode} (h : ¬ n.IsInner) (b : Byte) (path : List Byte) :
    descend (b :: path) n = none := by
  cases n with
  | accept => rfl
  | children e c nodes =>
    cases nodes with
    | nil => rfl
    | cons m ms => exact absurd trivial h

theorem IsLeaf.not_isInner {n : DfaNode} (h : n.IsLeaf) : ¬ n.IsInner := by
  cases n with
  | accept => exact id
  | children => exact h.elim

/-- The acceptor at the end of a path, with its flag. -/
def leafAt (path : List Byte) (node : DfaNode) : Option (Bool × DfaAcceptor) :=
  match descend path node with
  | some (accept _ c v) => some (c, v)
  | _ => none

theorem leafAt_eq_some {path : List Byte} {node : DfaNode} {c : Bool} {v : DfaAcceptor} :
    leafAt path node = some (c, v) ↔ ∃ e, descend path node = some (accept e c v) := by
  unfold leafAt
  split
  · rename_i e c' v' h
    simp [h]
  · rename_i h
    simp only [reduceCtorEq, false_iff, not_exists]
    exact fun e he => h e c v he

theorem leafAt_isSome {path : List Byte} {node : DfaNode} :
    (leafAt path node).isSome ↔ ∃ n, descend path node = some n ∧ n.IsLeaf := by
  unfold leafAt
  split
  · rename_i e c v h
    simp [h, IsLeaf]
  · rename_i h
    simp only [Option.isSome_none, Bool.false_eq_true, false_iff, not_exists, not_and]
    intro n hn
    cases n with
    | accept e c v => exact absurd hn (h e c v)
    | children => exact id

end DfaNode

open DfaNode (childAt descend IsLeaf IsInner leafAt)

/-! ### One round of the search for a child -/

/-- The search works on the child with the edge, or on a fresh one. -/
def childOrFresh (edge : Byte) (custom : Bool) (nodes : List DfaNode) : DfaNode :=
  (childAt nodes edge).getD (.children edge custom [])

section InsertChild

variable {rest : DfaNode → Except Fault DfaNode} {edge : Byte} {custom : Bool}

theorem childOrFresh_cons_eq {child : DfaNode} {nodes : List DfaNode} (h : child.edge = edge) :
    childOrFresh edge custom (child :: nodes) = child := by
  simp [childOrFresh, childAt, h]

theorem childOrFresh_cons_ne {child : DfaNode} {nodes : List DfaNode} (h : child.edge ≠ edge) :
    childOrFresh edge custom (child :: nodes) = childOrFresh edge custom nodes := by
  simp [childOrFresh, childAt, h]

/-- The search succeeds exactly when the rest of the insertion does. -/
theorem insertChild_ok_iff {nodes : List DfaNode} :
    (∃ nodes', insertChild rest edge custom nodes = .ok nodes') ↔
      ∃ child', rest (childOrFresh edge custom nodes) = .ok child' := by
  induction nodes with
  | nil => exact Run.exists_bind_pure
  | cons child nodes ih =>
    rw [insertChild]
    by_cases h : child.edge = edge
    · rw [if_pos h, childOrFresh_cons_eq h]
      exact Run.exists_bind_pure
    · rw [if_neg h, childOrFresh_cons_ne h, ← ih]
      exact Run.exists_bind_pure

/-- After the search, the edge leads to the updated child and every other edge
leads where it led before. The children only grow. -/
theorem insertChild_childAt (hedge : ∀ n n', rest n = .ok n' → n'.edge = n.edge) :
    ∀ {nodes nodes' : List DfaNode}, insertChild rest edge custom nodes = .ok nodes' →
      nodes' ≠ [] ∧ ∃ child', rest (childOrFresh edge custom nodes) = .ok child' ∧
        ∀ b, childAt nodes' b = if b = edge then some child' else childAt nodes b := by
  intro nodes
  induction nodes with
  | nil =>
    intro nodes' h
    obtain ⟨c, hc, rfl⟩ : ∃ c, rest (.children edge custom []) = .ok c ∧ [c] = nodes' := by
      rw [insertChild, Run.bind_eq_ok] at h
      simpa using h
    have hce : c.edge = edge := hedge _ _ hc
    refine ⟨by simp, c, hc, fun b => ?_⟩
    by_cases hb : b = edge
    · simp [childAt, hb, hce]
    · simp [childAt, hb, hce, Ne.symm hb]
  | cons child nodes ih =>
    intro nodes' h
    rw [insertChild] at h
    by_cases hch : child.edge = edge
    · rw [if_pos hch, Run.bind_eq_ok] at h
      obtain ⟨c, hc, h⟩ := h
      obtain rfl : c :: nodes = nodes' := by simpa using h
      have hce : c.edge = edge := (hedge _ _ hc).trans hch
      refine ⟨by simp, c, (childOrFresh_cons_eq hch).symm ▸ hc, fun b => ?_⟩
      by_cases hb : b = edge
      · simp [childAt, hb, hce]
      · simp [childAt, hb, hce, hch, Ne.symm hb]
    · rw [if_neg hch, Run.bind_eq_ok] at h
      obtain ⟨ns, hns, h⟩ := h
      obtain rfl : child :: ns = nodes' := by simpa using h
      obtain ⟨-, c, hc, hat⟩ := ih hns
      refine ⟨by simp, c, (childOrFresh_cons_ne hch).symm ▸ hc, fun b => ?_⟩
      have hcons : ∀ ms, childAt (child :: ms) b =
          if child.edge = b then some child else childAt ms b := by
        intro ms
        by_cases hcb : child.edge = b <;> simp [childAt, hcb]
      rw [hcons, hcons, hat b]
      by_cases hcb : child.edge = b
      · rw [if_pos hcb, if_pos hcb, if_neg (fun hb => hch (hcb.trans hb))]
      · rw [if_neg hcb, if_neg hcb]

end InsertChild

/-! ### One insertion -/

section Insert

variable {acceptValue : DfaAcceptor} {custom : Bool}

theorem dfaInsert_cons_children {b : Byte} {sequence : List Byte} {e : Byte} {c : Bool}
    {nodes : List DfaNode} {node' : DfaNode} :
    dfaInsert acceptValue custom (b :: sequence) (.children e c nodes) = .ok node' ↔
      ∃ nodes', insertChild (dfaInsert acceptValue custom sequence) b custom nodes = .ok nodes' ∧
        node' = .children e c nodes' := by
  rw [dfaInsert, Run.bind_eq_ok]
  simp [eq_comm]

/-- A sequence ends on a node without children, which becomes the acceptor. -/
theorem dfaInsert_nil {node node' : DfaNode} :
    dfaInsert acceptValue custom [] node = .ok node' ↔
      ¬ node.IsInner ∧ node' = .accept node.edge node.custom acceptValue := by
  cases node with
  | accept e c v => exact ⟨fun h => ⟨id, (Except.ok.inj h).symm⟩, fun h => h.2 ▸ rfl⟩
  | children e c nodes =>
    cases nodes with
    | nil => exact ⟨fun h => ⟨id, (Except.ok.inj h).symm⟩, fun h => h.2 ▸ rfl⟩
    | cons m ms => exact iff_of_false (fun h => by cases h) fun h => h.1 trivial

theorem dfaInsert_edge : ∀ {sequence : List Byte} {node node' : DfaNode},
    dfaInsert acceptValue custom sequence node = .ok node' → node'.edge = node.edge
  | [], _, _, h => by
      obtain ⟨-, rfl⟩ := dfaInsert_nil.mp h
      rfl
  | _ :: _, .accept _ _ _, _, h => by cases h
  | _ :: _, .children _ _ _, _, h => by
      obtain ⟨_, -, rfl⟩ := dfaInsert_cons_children.mp h
      rfl

/-- A path that goes on behind the edge goes through the node the search would pick: a
fresh one has nothing but itself. -/
theorem descend_childOrFresh_cons (b b' : Byte) (path : List Byte) (e : Byte) (c : Bool)
    (nodes : List DfaNode) :
    descend (b :: b' :: path) (.children e c nodes) =
      descend (b' :: path) (childOrFresh b custom nodes) := by
  rw [DfaNode.descend_children]
  unfold childOrFresh
  cases childAt nodes b with
  | some child => rfl
  | none => rfl

/-- A path into the children goes through the child or the fresh node the
search would pick; an empty fresh node only matters for the empty path. -/
theorem descend_childOrFresh {b : Byte} {nodes : List DfaNode} {path : List Byte} {n : DfaNode}
    (e : Byte) (c : Bool) (hn : n.IsLeaf ∨ n.IsInner) :
    descend (b :: path) (.children e c nodes) = some n ↔
      descend path (childOrFresh b custom nodes) = some n := by
  cases path with
  | cons b' path => rw [descend_childOrFresh_cons]
  | nil =>
    rw [DfaNode.descend_children]
    unfold childOrFresh
    cases childAt nodes b with
    | some child => simp
    | none =>
      simp only [Option.bind_none, Option.getD_none, reduceCtorEq, false_iff]
      intro hfresh
      obtain rfl := Option.some.inj hfresh
      exact hn.elim id id

/-- An insertion is free of faults exactly when no acceptor lies on a proper
prefix of the sequence and no node with children at its end. -/
theorem dfaInsert_ok_iff : ∀ {sequence : List Byte} {node : DfaNode},
    (∃ node', dfaInsert acceptValue custom sequence node = .ok node') ↔
      (∀ p n, p <+: sequence → p ≠ sequence → descend p node = some n → ¬ n.IsLeaf) ∧
        ∀ n, descend sequence node = some n → ¬ n.IsInner
  | [], node => by
      simp only [dfaInsert_nil]
      constructor
      · rintro ⟨-, hinner, -⟩
        refine ⟨fun p _ hp hne => absurd (List.prefix_nil.mp hp) hne, fun n hn => ?_⟩
        obtain rfl := Option.some.inj hn
        exact hinner
      · rintro ⟨-, hinner⟩
        exact ⟨_, hinner node (DfaNode.descend_nil _), rfl⟩
  | b :: sequence, .accept e c v => by
      refine iff_of_false ?_ ?_
      · intro h
        obtain ⟨node', h⟩ := h
        cases h
      · intro h
        obtain ⟨h, -⟩ := h
        exact h [] _ List.nil_prefix (by simp) (DfaNode.descend_nil _) trivial
  | b :: sequence, .children e c nodes => by
      have hok : (∃ node', dfaInsert acceptValue custom (b :: sequence) (.children e c nodes)
            = .ok node') ↔
          ∃ nodes', insertChild (dfaInsert acceptValue custom sequence) b custom nodes
            = .ok nodes' := Run.exists_bind_pure
      rw [hok, insertChild_ok_iff, dfaInsert_ok_iff]
      constructor
      · intro h
        obtain ⟨hleaf, hinner⟩ := h
        refine ⟨fun p n hp hne hd hn => ?_, fun n hd hn => ?_⟩
        · cases p with
          | nil =>
            obtain rfl := Option.some.inj hd
            exact hn
          | cons b' p =>
            obtain ⟨rfl, hp'⟩ := List.cons_prefix_cons.mp hp
            exact hleaf p n hp' (fun h => hne (h ▸ rfl))
              ((descend_childOrFresh e c (Or.inl hn)).mp hd) hn
        · exact hinner n ((descend_childOrFresh e c (Or.inr hn)).mp hd) hn
      · intro h
        obtain ⟨hleaf, hinner⟩ := h
        refine ⟨fun p n hp hne hd hn => ?_, fun n hd hn => ?_⟩
        · exact hleaf (b :: p) n (List.cons_prefix_cons.mpr ⟨rfl, hp⟩)
            (fun h => hne (List.cons.inj h).2) ((descend_childOrFresh e c (Or.inl hn)).mpr hd) hn
        · exact hinner n ((descend_childOrFresh e c (Or.inr hn)).mpr hd) hn

/-- The flag of the acceptor an insertion writes: set when the node was made. -/
def flagAt (custom : Bool) (sequence : List Byte) (node : DfaNode) : Bool :=
  ((descend sequence node).map DfaNode.custom).getD custom

/-- What a fault-free insertion leaves at every path. -/
theorem dfaInsert_descend : ∀ {sequence : List Byte} {node node' : DfaNode},
    dfaInsert acceptValue custom sequence node = .ok node' →
      (∃ e, descend sequence node' =
        some (.accept e (flagAt custom sequence node) acceptValue)) ∧
      (∀ p, p <+: sequence → p ≠ sequence → ∃ n, descend p node' = some n ∧ n.IsInner) ∧
      ∀ p, ¬ p <+: sequence → descend p node' = descend p node
  | [], node, node', h => by
      obtain ⟨hinner, rfl⟩ := dfaInsert_nil.mp h
      refine ⟨⟨node.edge, rfl⟩, fun p hp hne => absurd (List.prefix_nil.mp hp) hne, fun p hp => ?_⟩
      cases p with
      | nil => exact absurd List.nil_prefix hp
      | cons b p => exact (DfaNode.descend_cons_of_not_inner hinner b p).symm
  | _ :: _, .accept _ _ _, _, h => by cases h
  | b :: sequence, .children e c nodes, node', h => by
      obtain ⟨nodes', hins, rfl⟩ := dfaInsert_cons_children.mp h
      obtain ⟨hne, child', hchild, hat⟩ :=
        insertChild_childAt (fun _ _ hr => dfaInsert_edge hr) hins
      obtain ⟨⟨e', hleaf⟩, hpre, hother⟩ := dfaInsert_descend hchild
      have hdesc : ∀ p, descend (b :: p) (.children e c nodes') = descend p child' := by
        intro p
        rw [DfaNode.descend_children, hat b, if_pos rfl, Option.bind_some]
      refine ⟨⟨e', ?_⟩, fun p hp hnep => ?_, fun p hp => ?_⟩
      · have hflag : flagAt custom (b :: sequence) (.children e c nodes) =
            flagAt custom sequence (childOrFresh b custom nodes) := by
          unfold flagAt childOrFresh
          rw [DfaNode.descend_children]
          cases hc : childAt nodes b with
          | some child => rfl
          | none => cases sequence <;> rfl
        rw [hdesc, hleaf, hflag]
      · cases p with
        | nil =>
          obtain ⟨m, ms, rfl⟩ := List.exists_cons_of_ne_nil hne
          exact ⟨_, DfaNode.descend_nil _, trivial⟩
        | cons b' p =>
          obtain ⟨rfl, hp'⟩ := List.cons_prefix_cons.mp hp
          rw [hdesc]
          exact hpre p hp' (fun h => hnep (h ▸ rfl))
      · cases p with
        | nil => exact absurd List.nil_prefix hp
        | cons b' p =>
          by_cases hb : b' = b
          · subst hb
            have hp' : ¬ p <+: sequence :=
              fun h => hp (List.cons_prefix_cons.mpr ⟨rfl, h⟩)
            rw [hdesc, hother p hp']
            cases p with
            | nil => exact absurd List.nil_prefix hp'
            | cons b'' p => exact (descend_childOrFresh_cons b' b'' p e c nodes).symm
          · rw [DfaNode.descend_children, DfaNode.descend_children, hat b', if_neg hb]

end Insert

/-! ### Which words the tree holds -/

/-- The tree holds exactly the words of `W`: they lead to acceptors, their
proper prefixes to nodes with children, and no other path exists. Only the root
of an empty tree has an unwritten child array. -/
structure TreeOf (W : Set (List Byte)) (root : DfaNode) : Prop where
  /-- The root is not an acceptor. -/
  root_not_leaf : ¬ root.IsLeaf
  /-- Acceptors are at the ends of the words. -/
  leaf_iff : ∀ p, (∃ n, descend p root = some n ∧ n.IsLeaf) ↔ p ∈ W
  /-- Nodes with children are at the proper prefixes of the words. -/
  inner_iff : ∀ p, (∃ n, descend p root = some n ∧ n.IsInner) ↔
    ∃ w ∈ W, p <+: w ∧ p ≠ w
  /-- Every node but the root is an acceptor or has children. -/
  full : ∀ p n, descend p root = some n → n.IsLeaf ∨ n.IsInner ∨ p = []

/-- The paths to acceptors are the words. -/
theorem TreeOf.leafAt_isSome {W : Set (List Byte)} {root : DfaNode} (hT : TreeOf W root) {p : List Byte} :
    (DfaNode.leafAt p root).isSome ↔ p ∈ W :=
  DfaNode.leafAt_isSome.trans (hT.leaf_iff p)

theorem TreeOf.mem_of_leafAt {W : Set (List Byte)} {root : DfaNode} (hT : TreeOf W root) {p : List Byte}
    {x : Bool × DfaAcceptor} (h : DfaNode.leafAt p root = some x) : p ∈ W :=
  hT.leafAt_isSome.mp (Option.isSome_of_eq_some h)

theorem treeOf_empty : TreeOf ∅ dfaRoot where
  root_not_leaf := id
  leaf_iff := by
    intro p
    cases p with
    | nil => simp [dfaRoot, IsLeaf]
    | cons b p => simp [dfaRoot, DfaNode.descend_children, childAt]
  inner_iff := by
    intro p
    cases p with
    | nil => simp [dfaRoot, IsInner]
    | cons b p => simp [dfaRoot, DfaNode.descend_children, childAt]
  full := by
    intro p n h
    cases p with
    | nil => exact Or.inr (Or.inr rfl)
    | cons b p => simp [dfaRoot, DfaNode.descend_children, childAt] at h

section Insert

variable {W : Set (List Byte)} {root root' : DfaNode} {sequence : List Byte}
  {acceptValue : DfaAcceptor} {custom : Bool}

/-- Inserting a word is free of faults exactly when it is not a proper prefix of
a word of the tree, nor such a word a proper prefix of it. -/
theorem TreeOf.insert_ok_iff (hT : TreeOf W root) :
    (∃ root', dfaInsert acceptValue custom sequence root = .ok root') ↔
      ∀ w ∈ W, (w <+: sequence → w = sequence) ∧ (sequence <+: w → sequence = w) := by
  rw [dfaInsert_ok_iff]
  constructor
  · intro h w hw
    obtain ⟨hleaf, hinner⟩ := h
    constructor
    · intro hp
      by_contra hne
      obtain ⟨n, hn, hnl⟩ := (hT.leaf_iff w).mpr hw
      exact hleaf w n hp hne hn hnl
    · intro hp
      by_contra hne
      obtain ⟨n, hn, hni⟩ := (hT.inner_iff sequence).mpr ⟨w, hw, hp, hne⟩
      exact hinner n hn hni
  · intro h
    refine ⟨fun p n hp hne hd hn => ?_, fun n hd hn => ?_⟩
    · exact hne ((h p ((hT.leaf_iff p).mp ⟨n, hd, hn⟩)).1 hp)
    · obtain ⟨w, hw, hp, hne⟩ := (hT.inner_iff sequence).mp ⟨n, hd, hn⟩
      exact hne ((h w hw).2 hp)

/-- **Step lemma.** A fault-free insertion adds its word. -/
theorem TreeOf.insert (hT : TreeOf W root) (hseq : sequence ≠ [])
    (h : dfaInsert acceptValue custom sequence root = .ok root') :
    TreeOf (Insert.insert sequence W) root' := by
  have hcmp := hT.insert_ok_iff.mp ⟨root', h⟩
  obtain ⟨⟨e, hleaf⟩, hpre, hother⟩ := dfaInsert_descend h
  -- the three kinds of path are at, above and beside the inserted word
  have hsplit : ∀ p, p = sequence ∨ (p <+: sequence ∧ p ≠ sequence) ∨ ¬ p <+: sequence := by
    intro p
    by_cases hp : p <+: sequence
    · by_cases hne : p = sequence
      · exact Or.inl hne
      · exact Or.inr (Or.inl ⟨hp, hne⟩)
    · exact Or.inr (Or.inr hp)
  refine ⟨?_, fun p => ?_, fun p => ?_, fun p n hn => ?_⟩
  · obtain ⟨n, hn, hni⟩ := hpre [] List.nil_prefix (Ne.symm hseq)
    obtain rfl := Option.some.inj hn
    exact fun hl => hl.not_isInner hni
  · rcases hsplit p with rfl | ⟨hp, hne⟩ | hp
    · exact iff_of_true ⟨_, hleaf, trivial⟩ (Set.mem_insert _ _)
    · obtain ⟨n, hn, hni⟩ := hpre p hp hne
      refine iff_of_false ?_ ?_
      · intro h
        obtain ⟨m, hm, hml⟩ := h
        rw [hn, Option.some.injEq] at hm
        exact hml.not_isInner (hm ▸ hni)
      · intro h
        rcases h with h | h
        · exact hne h
        · exact hne ((hcmp p h).1 hp)
    · rw [hother p hp, hT.leaf_iff p, Set.mem_insert_iff, or_iff_right]
      exact fun h => hp (h ▸ List.prefix_rfl)
  · rcases hsplit p with rfl | ⟨hp, hne⟩ | hp
    · refine iff_of_false ?_ ?_
      · intro h
        obtain ⟨m, hm, hmi⟩ := h
        rw [hleaf, Option.some.injEq] at hm
        exact (hm ▸ hmi : IsInner (.accept _ _ _))
      · intro h
        obtain ⟨w, hw | hw, hpw, hne⟩ := h
        · exact hne hw.symm
        · exact hne ((hcmp w hw).2 hpw)
    · exact iff_of_true (hpre p hp hne) ⟨sequence, Set.mem_insert _ _, hp, hne⟩
    · rw [hother p hp, hT.inner_iff p]
      constructor
      · intro h
        obtain ⟨w, hw, hpw, hne⟩ := h
        exact ⟨w, Set.mem_insert_of_mem _ hw, hpw, hne⟩
      · intro h
        obtain ⟨w, rfl | hw, hpw, hne⟩ := h
        · exact absurd hpw hp
        · exact ⟨w, hw, hpw, hne⟩
  · rcases hsplit p with rfl | ⟨hp, hne⟩ | hp
    · rw [hleaf, Option.some.injEq] at hn
      exact Or.inl (hn ▸ trivial)
    · obtain ⟨m, hm, hmi⟩ := hpre p hp hne
      rw [hn, Option.some.injEq] at hm
      exact Or.inr (Or.inl (hm ▸ hmi))
    · rw [hother p hp] at hn
      exact hT.full p n hn

/-- A fault-free insertion changes the acceptor of its own word only. The flag
is the one the word's node was made with, the acceptor the inserted one. -/
theorem TreeOf.leafAt_insert (hT : TreeOf W root) (hseq : sequence ≠ [])
    (h : dfaInsert acceptValue custom sequence root = .ok root') (p : List Byte) :
    leafAt p root' =
      if p = sequence then some (((leafAt sequence root).map Prod.fst).getD custom, acceptValue)
      else leafAt p root := by
  have hcmp := hT.insert_ok_iff.mp ⟨root', h⟩
  obtain ⟨⟨e, hleaf⟩, hpre, hother⟩ := dfaInsert_descend h
  by_cases hp : p <+: sequence
  · by_cases hne : p = sequence
    · subst hne
      rw [if_pos rfl, DfaNode.leafAt_eq_some]
      refine ⟨e, hleaf.trans ?_⟩
      congr 2
      unfold flagAt leafAt
      cases hd : descend p root with
      | none => rfl
      | some n =>
        rcases hT.full p n hd with hl | hi | hnil
        · cases n with
          | accept => rfl
          | children => exact hl.elim
        · obtain ⟨w, hw, hpw, hne'⟩ := (hT.inner_iff p).mp ⟨n, hd, hi⟩
          exact absurd ((hcmp w hw).2 hpw) hne'
        · exact absurd hnil hseq
    · rw [if_neg hne]
      have hnone : ∀ r : DfaNode, (¬ ∃ n, descend p r = some n ∧ n.IsLeaf) →
          leafAt p r = none := by
        intro r hr
        rw [← Option.not_isSome_iff_eq_none, DfaNode.leafAt_isSome]
        exact hr
      rw [hnone, hnone]
      · rw [hT.leaf_iff]
        exact fun hw => hne ((hcmp p hw).1 hp)
      · obtain ⟨n, hn, hni⟩ := hpre p hp hne
        intro h
        obtain ⟨m, hm, hml⟩ := h
        rw [hn, Option.some.injEq] at hm
        exact hml.not_isInner (hm ▸ hni)
  · have hne : p ≠ sequence := by
      intro heq
      subst heq
      exact hp List.prefix_rfl
    rw [if_neg hne]
    simp only [leafAt, hother p hp]

end Insert

end Nanorl
