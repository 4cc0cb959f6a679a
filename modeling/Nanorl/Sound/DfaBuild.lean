import Nanorl.Sound.DfaTree

/-!
# Nanorl.Sound.DfaBuild

`nrl_dfa_build` over a whole capability table.

The build is a run of insertions, so the step lemmas of `Sound.DfaTree` lift to
it: it is free of faults exactly when no inserted word is a proper prefix of
another one (`nrlDfaBuild_ok_iff`), the tree then holds exactly the inserted
words (`nrlDfaBuild_treeOf`), and at a word it holds what `recordEntry` says: the
flag of the first and the acceptor of the last insertion of that word.
-/

namespace Nanorl

open PrefixCode (PrefixFree)
open DfaNode (descend IsLeaf IsInner leafAt)

/-! ### Runs of insertions -/

/-- The words of an insertion list. -/
def sequences (es : List DfaEntry) : Set (List Byte) := {w | ∃ e ∈ es, e.sequence = w}

section Members

variable {es : List DfaEntry} {p : List Byte → Prop}

theorem forall_mem_sequences : (∀ w ∈ sequences es, p w) ↔ ∀ e ∈ es, p e.sequence :=
  ⟨fun h e he => h _ ⟨e, he, rfl⟩, fun h _ ⟨e, he, hw⟩ => hw ▸ h e he⟩

theorem exists_mem_sequences : (∃ w ∈ sequences es, p w) ↔ ∃ e ∈ es, p e.sequence :=
  ⟨fun ⟨_, ⟨e, he, hw⟩, h⟩ => ⟨e, he, hw ▸ h⟩, fun ⟨e, he, h⟩ => ⟨_, ⟨e, he, rfl⟩, h⟩⟩

instance [DecidablePred p] : Decidable (∀ w ∈ sequences es, p w) :=
  decidable_of_iff' _ forall_mem_sequences

instance [DecidablePred p] : Decidable (∃ w ∈ sequences es, p w) :=
  decidable_of_iff' _ exists_mem_sequences

end Members

theorem sequences_cons (e : DfaEntry) (es : List DfaEntry) :
    sequences (e :: es) = insert e.sequence (sequences es) := by
  ext w
  simp [sequences, eq_comm]

@[simp] theorem sequences_nil : sequences [] = ∅ := by
  ext w
  simp [sequences]

/-- The insertions of a build, one after the other. -/
def insertAll : List DfaEntry → DfaNode → Except Fault DfaNode :=
  Run.exec fun e => dfaInsert e.accept e.custom e.sequence

theorem insertAll_treeOf : ∀ {es : List DfaEntry} {W : Set (List Byte)} {root root' : DfaNode},
    TreeOf W root → (∀ e ∈ es, e.sequence ≠ []) → insertAll es root = .ok root' →
      TreeOf (sequences es ∪ W) root' := by
  intro es
  induction es with
  | nil =>
    intro W root root' hT _ h
    obtain rfl : root = root' := by simpa [insertAll] using h
    simpa using hT
  | cons e es ih =>
    intro W root root' hT hne h
    obtain ⟨mid, hmid, hrest⟩ := Run.exec_cons_ok.mp h
    have hT' := hT.insert (hne e List.mem_cons_self) hmid
    have := ih hT' (fun e' he' => hne e' (List.mem_cons_of_mem _ he')) hrest
    rwa [sequences_cons, Set.insert_union, ← Set.union_insert]

/-- A run of insertions is free of faults exactly when the words it adds and the
words already there are free of proper prefixes. -/
theorem insertAll_ok_iff : ∀ {es : List DfaEntry} {W : Set (List Byte)} {root : DfaNode},
    TreeOf W root → PrefixFree W → (∀ e ∈ es, e.sequence ≠ []) →
      ((∃ root', insertAll es root = .ok root') ↔ PrefixFree (sequences es ∪ W)) := by
  intro es
  induction es with
  | nil =>
    intro W root _ hW _
    refine iff_of_true ⟨root, rfl⟩ (by simpa using hW)
  | cons e es ih =>
    intro W root hT hW hne
    have hunion : sequences (e :: es) ∪ W = sequences es ∪ insert e.sequence W := by
      rw [sequences_cons, Set.insert_union, ← Set.union_insert]
    have hne' : ∀ e' ∈ es, e'.sequence ≠ [] :=
      fun e' he' => hne e' (List.mem_cons_of_mem _ he')
    rw [hunion]
    constructor
    · intro hbuilt
      obtain ⟨root', h⟩ := hbuilt
      obtain ⟨mid, hmid, hrest⟩ := Run.exec_cons_ok.mp h
      have hcmp := hT.insert_ok_iff.mp ⟨mid, hmid⟩
      have hfree : PrefixFree (insert e.sequence W) := by
        intro v hv w hw hp
        rcases hv with rfl | hv
        · rcases hw with rfl | hw
          · rfl
          · exact (hcmp w hw).2 hp
        · rcases hw with rfl | hw
          · exact (hcmp v hv).1 hp
          · exact hW v hv w hw hp
      exact (ih (hT.insert (hne e List.mem_cons_self) hmid) hfree hne').mp ⟨root', hrest⟩
    · intro hfree
      have hsub : insert e.sequence W ⊆ sequences es ∪ insert e.sequence W :=
        Set.subset_union_right
      have hins : ∃ mid, dfaInsert e.accept e.custom e.sequence root = .ok mid := by
        refine hT.insert_ok_iff.mpr fun w hw => ⟨fun hp => ?_, fun hp => ?_⟩
        · exact hfree w (hsub (Set.mem_insert_of_mem _ hw)) _ (hsub (Set.mem_insert _ _)) hp
        · exact hfree _ (hsub (Set.mem_insert _ _)) w (hsub (Set.mem_insert_of_mem _ hw)) hp
      obtain ⟨mid, hmid⟩ := hins
      have hmidT := hT.insert (hne e List.mem_cons_self) hmid
      obtain ⟨root', hrest⟩ := (ih hmidT (hfree.mono hsub) hne').mpr hfree
      exact ⟨root', Run.exec_cons_ok.mpr ⟨mid, hmid, hrest⟩⟩

/-- The dictionary a table stands for, one insertion on: the acceptor is the
new one, the flag stays that of the first insertion of the word. -/
def recordEntry (dict : List Byte → Option (Bool × DfaAcceptor)) (e : DfaEntry) :
    List Byte → Option (Bool × DfaAcceptor) :=
  fun p =>
    if p = e.sequence then some (((dict e.sequence).map Prod.fst).getD e.custom, e.accept)
    else dict p

/-- The acceptors of the tree are those of the dictionary. -/
theorem insertAll_leafAt : ∀ {es : List DfaEntry} {W : Set (List Byte)} {root root' : DfaNode},
    TreeOf W root → (∀ e ∈ es, e.sequence ≠ []) → insertAll es root = .ok root' →
      (fun p => leafAt p root') = es.foldl recordEntry (fun p => leafAt p root) := by
  intro es
  induction es with
  | nil =>
    intro W root root' _ _ h
    obtain rfl : root = root' := by simpa [insertAll] using h
    rfl
  | cons e es ih =>
    intro W root root' hT hne h
    obtain ⟨mid, hmid, hrest⟩ := Run.exec_cons_ok.mp h
    have hseq := hne e List.mem_cons_self
    have hmid' : (fun p => leafAt p mid) = recordEntry (fun p => leafAt p root) e := by
      funext p
      rw [hT.leafAt_insert hseq hmid p]
      rfl
    rw [ih (hT.insert hseq hmid) (fun e' he' => hne e' (List.mem_cons_of_mem _ he')) hrest,
      hmid', List.foldl_cons]

/-- Where insertions of one word agree, the dictionary holds each of them. -/
theorem foldl_recordEntry_of_agree {es : List DfaEntry}
    (hagree : ∀ e ∈ es, ∀ e' ∈ es, e.sequence = e'.sequence →
      e.custom = e'.custom ∧ e.accept = e'.accept)
    {dict : List Byte → Option (Bool × DfaAcceptor)} (hdict : ∀ e ∈ es, dict e.sequence = none) :
    ∀ e ∈ es, es.foldl recordEntry dict e.sequence = some (e.custom, e.accept) := by
  -- generalise to a dictionary that holds nothing but agreeing entries
  suffices h : ∀ (fs : List DfaEntry), (∀ f ∈ fs, f ∈ es) →
      ∀ dict : List Byte → Option (Bool × DfaAcceptor),
        (∀ e ∈ es, dict e.sequence = none ∨ dict e.sequence = some (e.custom, e.accept)) →
        ∀ e ∈ es, e ∈ fs ∨ dict e.sequence = some (e.custom, e.accept) →
          fs.foldl recordEntry dict e.sequence = some (e.custom, e.accept) from
    fun e he => h es (fun _ h => h) dict (fun e he => Or.inl (hdict e he)) e he (Or.inl he)
  intro fs
  induction fs with
  | nil =>
    intro _ dict _ e _ h
    exact h.resolve_left List.not_mem_nil
  | cons f fs ih =>
    intro hfs dict hd e he h
    have hf : f ∈ es := hfs f List.mem_cons_self
    have hat : ∀ e' ∈ es, e'.sequence = f.sequence →
        recordEntry dict f e'.sequence = some (e'.custom, e'.accept) := by
      intro e' he' hs
      obtain ⟨hc, ha⟩ := hagree e' he' f hf hs
      rcases hd f hf with hn | hs'
      · simp [recordEntry, hs, hn, hc, ha]
      · simp [recordEntry, hs, hs', hc, ha]
    have hstep : ∀ e' ∈ es, recordEntry dict f e'.sequence = none ∨
        recordEntry dict f e'.sequence = some (e'.custom, e'.accept) := by
      intro e' he'
      by_cases hs : e'.sequence = f.sequence
      · exact Or.inr (hat e' he' hs)
      · simpa [recordEntry, hs] using hd e' he'
    rw [List.foldl_cons]
    refine ih (fun g hg => hfs g (List.mem_cons_of_mem _ hg)) _ hstep e he ?_
    by_cases hs : e.sequence = f.sequence
    · exact Or.inr (hat e he hs)
    · rcases h with hmem | hdone
      · rcases List.mem_cons.mp hmem with rfl | hmem
        · exact absurd rfl hs
        · exact Or.inl hmem
      · exact Or.inr (by simpa [recordEntry, hs] using hdone)

/-! ### The nodes of a finished tree -/

/-- `n` is a node of the tree below `root`. -/
inductive DfaNode.Below (n : DfaNode) : DfaNode → Prop
  | child {e : Byte} {c : Bool} {nodes : List DfaNode} :
      n ∈ nodes → Below n (.children e c nodes)
  | deep {e : Byte} {c : Bool} {nodes : List DfaNode} {m : DfaNode} :
      m ∈ nodes → Below n m → Below n (.children e c nodes)

/-- The union member a node's `children_count` announces is the one written
last: an acceptor without children, a child array otherwise. The root is exempt
as long as it has no children: `nrl_dfa_parse` tests for that first. -/
structure DfaNode.WellFormed (root : DfaNode) : Prop where
  root_children : ¬ root.IsLeaf
  leaf : ∀ n, Below n root → n.childrenCount = 0 → n.IsLeaf
  inner : ∀ n, Below n root → n.childrenCount ≠ 0 → n.IsInner

theorem isInner_of_childrenCount {n : DfaNode} (h : n.childrenCount ≠ 0) : n.IsInner := by
  cases n with
  | accept => exact absurd rfl h
  | children e c nodes =>
    cases nodes with
    | nil => exact absurd rfl h
    | cons m ms => trivial

theorem isLeaf_or_isInner_iff {n : DfaNode} :
    (n.IsLeaf ∨ n.IsInner) ↔ (n.childrenCount = 0 → n.IsLeaf) := by
  constructor
  · intro h h0
    rcases h with h | h
    · exact h
    · cases n with
      | accept => exact trivial
      | children e c nodes =>
        cases nodes with
        | nil => exact h
        | cons m ms => simp [DfaNode.childrenCount] at h0
  · intro h
    by_cases h0 : n.childrenCount = 0
    · exact Or.inl (h h0)
    · exact Or.inr (isInner_of_childrenCount h0)

theorem insertChild_mem {rest : DfaNode → Except Fault DfaNode} {edge : Byte} {custom : Bool} :
    ∀ {nodes nodes' : List DfaNode}, insertChild rest edge custom nodes = .ok nodes' →
      ∀ m ∈ nodes', m ∈ nodes ∨
        ∃ child, (child ∈ nodes ∨ child = .children edge custom []) ∧ rest child = .ok m := by
  intro nodes
  induction nodes with
  | nil =>
    intro nodes' h m hm
    rw [insertChild, Run.bind_eq_ok] at h
    obtain ⟨c, hc, h⟩ := h
    obtain rfl : [c] = nodes' := by simpa using h
    obtain rfl := List.mem_singleton.mp hm
    exact Or.inr ⟨_, Or.inr rfl, hc⟩
  | cons child nodes ih =>
    intro nodes' h m hm
    rw [insertChild] at h
    by_cases hch : child.edge = edge
    · rw [if_pos hch, Run.bind_eq_ok] at h
      obtain ⟨c, hc, h⟩ := h
      obtain rfl : c :: nodes = nodes' := by simpa using h
      rcases List.mem_cons.mp hm with rfl | hm
      · exact Or.inr ⟨child, Or.inl List.mem_cons_self, hc⟩
      · exact Or.inl (List.mem_cons_of_mem _ hm)
    · rw [if_neg hch, Run.bind_eq_ok] at h
      obtain ⟨ns, hns, h⟩ := h
      obtain rfl : child :: ns = nodes' := by simpa using h
      rcases List.mem_cons.mp hm with rfl | hm
      · exact Or.inl List.mem_cons_self
      · rcases ih hns m hm with hm | ⟨x, hx | hx, hr⟩
        · exact Or.inl (List.mem_cons_of_mem _ hm)
        · exact Or.inr ⟨x, Or.inl (List.mem_cons_of_mem _ hx), hr⟩
        · exact Or.inr ⟨x, Or.inr hx, hr⟩

/-- A fault-free insertion leaves no node without a written union member: it
writes the acceptor of the last node it makes and a child into every other. -/
theorem dfaInsert_below {acceptValue : DfaAcceptor} {custom : Bool} :
    ∀ {sequence : List Byte} {node node' : DfaNode},
      (∀ n, DfaNode.Below n node → n.IsLeaf ∨ n.IsInner) →
      dfaInsert acceptValue custom sequence node = .ok node' →
        (node'.IsLeaf ∨ node'.IsInner) ∧
          ∀ n, DfaNode.Below n node' → n.IsLeaf ∨ n.IsInner
  | [], .children _ _ [], node', _, h => by
      obtain rfl := Except.ok.inj h
      exact ⟨Or.inl trivial, fun n hn => by cases hn⟩
  | [], .accept _ _ _, node', _, h => by
      obtain rfl := Except.ok.inj h
      exact ⟨Or.inl trivial, fun n hn => by cases hn⟩
  | [], .children _ _ (_ :: _), _, _, h => by cases h
  | _ :: _, .accept _ _ _, _, _, h => by cases h
  | b :: sequence, .children e c nodes, node', hbelow, h => by
      obtain ⟨nodes', hins, rfl⟩ := dfaInsert_cons_children.mp h
      have hchild : ∀ m ∈ nodes', (m.IsLeaf ∨ m.IsInner) ∧
          ∀ n, DfaNode.Below n m → n.IsLeaf ∨ n.IsInner := by
        intro m hm
        rcases insertChild_mem hins m hm with hm | ⟨x, hx, hr⟩
        · exact ⟨hbelow m (.child hm), fun n hn => hbelow n (.deep hm hn)⟩
        · refine dfaInsert_below (fun n hn => ?_) hr
          rcases hx with hx | rfl
          · exact hbelow n (.deep hx hn)
          · cases hn <;> contradiction
      refine ⟨?_, fun n hn => ?_⟩
      · obtain ⟨hne, -⟩ := insertChild_childAt (fun _ _ hr => dfaInsert_edge hr) hins
        obtain ⟨m, ms, rfl⟩ := List.exists_cons_of_ne_nil hne
        exact Or.inr trivial
      · cases hn with
        | child hm => exact (hchild n hm).1
        | deep hm hn => exact (hchild _ hm).2 n hn

theorem insertAll_below {es : List DfaEntry} {root root' : DfaNode}
    (hroot : ∀ n, DfaNode.Below n root → n.IsLeaf ∨ n.IsInner)
    (h : insertAll es root = .ok root') :
    ∀ n, DfaNode.Below n root' → n.IsLeaf ∨ n.IsInner :=
  Run.exec_invariant (fun _ _ _ hI hstep => (dfaInsert_below hI hstep).2) hroot h

/-! ### The build -/

/-- A table `lookup_strings` can fill: its strings are neither empty nor
interrupted by a terminator. -/
def Terminfo.Loadable (t : Terminfo) : Prop :=
  ∀ w, some w ∈ t.inputs ++ t.customs → w ≠ [] ∧ (0 : Byte) ∉ w

instance (t : Terminfo) : Decidable t.Loadable :=
  decidable_of_iff (∀ o ∈ t.inputs ++ t.customs, o.all (fun w => !w.isEmpty && !w.contains 0) = true) <| by
    constructor
    · intro h w hw
      simpa using h (some w) hw
    · intro h o ho
      cases o with
      | none => rfl
      | some w => simpa using h w ho

/-- The sequences `nrl_dfa_build` inserts: the table and the xterm alias. -/
def dfaSequences (t : Terminfo) (envTerm : List Byte) : Set (List Byte) :=
  sequences (dfaEntries t envTerm)

instance (t : Terminfo) (envTerm : List Byte) (p : List Byte → Prop) [DecidablePred p] :
    Decidable (∀ w ∈ dfaSequences t envTerm, p w) :=
  inferInstanceAs (Decidable (∀ w ∈ sequences _, p w))

instance (t : Terminfo) (envTerm : List Byte) (p : List Byte → Prop) [DecidablePred p] :
    Decidable (∃ w ∈ dfaSequences t envTerm, p w) :=
  inferInstanceAs (Decidable (∃ w ∈ sequences _, p w))

theorem mem_tableEntries {lookup : Nat → Option (List Byte)} {count : Nat} {custom : Bool}
    {e : DfaEntry} :
    e ∈ tableEntries lookup count custom ↔
      ∃ i < count, lookup i = some e.sequence ∧ e.accept = ⟨i⟩ ∧ e.custom = custom := by
  simp only [tableEntries, List.mem_filterMap, List.mem_range, Option.map_eq_some_iff]
  constructor
  · intro h
    obtain ⟨i, hi, w, hw, rfl⟩ := h
    exact ⟨i, hi, hw, rfl, rfl⟩
  · intro h
    obtain ⟨i, hi, hw, ha, hc⟩ := h
    exact ⟨i, hi, e.sequence, hw, by rw [← ha, ← hc]⟩

/-- Who inserts an entry: an input, the xterm patch or a custom key. -/
theorem mem_dfaEntries {t : Terminfo} {envTerm : List Byte} {e : DfaEntry} :
    e ∈ dfaEntries t envTerm ↔
      (∃ i < tiiCount, nrlLookupInput t i = some e.sequence ∧ e.accept = ⟨i⟩ ∧
        e.custom = false) ∨
      (strstr envTerm (ascii "xterm") ∧
        e = ⟨xtermBackspace, ⟨TerminfoInput.keyBackspace.id⟩, false⟩) ∨
      ∃ i < ticCount, nrlLookupCustom t i = some e.sequence ∧ e.accept = ⟨i⟩ ∧
        e.custom = true := by
  simp only [dfaEntries, List.mem_append, mem_tableEntries, or_assoc]
  split <;> simp [*]

theorem mem_of_lookup {l : List (Option (List Byte))} {i : Nat} {w : List Byte}
    (h : (l[i]?).join = some w) : some w ∈ l := by
  rw [Option.join_eq_some_iff] at h
  exact List.mem_of_getElem? h

theorem Terminfo.Loadable.sequence_ne_nil {t : Terminfo} (ht : t.Loadable)
    (envTerm : List Byte) : ∀ e ∈ dfaEntries t envTerm, e.sequence ≠ [] := by
  intro e he
  rcases mem_dfaEntries.mp he with ⟨i, -, hl, -⟩ | ⟨-, rfl⟩ | ⟨i, -, hl, -⟩
  · exact (ht _ (List.mem_append_left _ (mem_of_lookup hl))).1
  · exact List.cons_ne_nil _ _
  · exact (ht _ (List.mem_append_right _ (mem_of_lookup hl))).1

theorem nrlDfaBuild_ok_iff {t : Terminfo} (ht : t.Loadable) (envTerm : List Byte) :
    (∃ root, nrlDfaBuild t envTerm dfaRoot = .ok root) ↔
      PrefixFree (dfaSequences t envTerm) := by
  have h := insertAll_ok_iff treeOf_empty (fun v hv => absurd hv (Set.notMem_empty v))
    (ht.sequence_ne_nil envTerm)
  rw [Set.union_empty] at h
  exact h

theorem nrlDfaBuild_treeOf {t : Terminfo} (ht : t.Loadable) {envTerm : List Byte}
    {root : DfaNode} (h : nrlDfaBuild t envTerm dfaRoot = .ok root) :
    TreeOf (dfaSequences t envTerm) root := by
  have h := insertAll_treeOf treeOf_empty (ht.sequence_ne_nil envTerm) h
  rwa [Set.union_empty] at h

/-- A build over the finished tree of the same table is free of faults and
leaves a tree of the same words. -/
theorem nrlDfaBuild_again {t : Terminfo} (ht : t.Loadable) {envTerm : List Byte}
    (hfree : PrefixFree (dfaSequences t envTerm)) {root : DfaNode}
    (hT : TreeOf (dfaSequences t envTerm) root) :
    ∃ root', nrlDfaBuild t envTerm root = .ok root' ∧
      TreeOf (dfaSequences t envTerm) root' := by
  have hself : sequences (dfaEntries t envTerm) ∪ dfaSequences t envTerm =
      dfaSequences t envTerm := Set.union_self _
  obtain ⟨root', h⟩ := (insertAll_ok_iff hT hfree (ht.sequence_ne_nil envTerm)).mpr
    (by rwa [hself])
  have hT' := insertAll_treeOf hT (ht.sequence_ne_nil envTerm) h
  rw [hself] at hT'
  exact ⟨root', h, hT'⟩

/-- **The union is never misused, and every node is finished, exactly when no
inserted sequence is a proper prefix of another.** -/
theorem nrlDfaBuild_wellFormed_iff {t : Terminfo} (ht : t.Loadable) (envTerm : List Byte) :
    (∃ root, nrlDfaBuild t envTerm dfaRoot = .ok root ∧ root.WellFormed) ↔
      PrefixFree (dfaSequences t envTerm) := by
  rw [← nrlDfaBuild_ok_iff ht envTerm]
  constructor
  · intro hwell
    obtain ⟨root, h, -⟩ := hwell
    exact ⟨root, h⟩
  · intro hbuilt
    obtain ⟨root, h⟩ := hbuilt
    have hfresh : ∀ n, DfaNode.Below n dfaRoot → n.IsLeaf ∨ n.IsInner :=
      fun n hn => by cases hn <;> contradiction
    have hbelow := insertAll_below hfresh h
    exact ⟨root, h, (nrlDfaBuild_treeOf ht h).root_not_leaf,
      fun n hn => isLeaf_or_isInner_iff.mp (hbelow n hn),
      fun n _ h0 => isInner_of_childrenCount h0⟩

/-- The precompiled xterm table. -/
def xtermTerminfo : Terminfo := { nrlFlXterm .unloaded with attemptedLoad := true, loadResult := true }

theorem xtermTerminfo_loadable : xtermTerminfo.Loadable := by decide

theorem nrlDfaBuild_wellFormed_iff_xterm :
    ∃ root, nrlDfaBuild xtermTerminfo (ascii "xterm") dfaRoot = .ok root ∧ root.WellFormed := by
  have hok : (nrlDfaBuild xtermTerminfo (ascii "xterm") dfaRoot).isOk = true := by decide +kernel
  have hfree : PrefixFree (dfaSequences xtermTerminfo (ascii "xterm")) :=
    (nrlDfaBuild_ok_iff xtermTerminfo_loadable _).mp (Run.isOk_iff.mp hok)
  exact (nrlDfaBuild_wellFormed_iff xtermTerminfo_loadable _).mpr hfree

/-- A description whose left key is a lone escape character, the first byte of
its right key. -/
def escapeLeftTerminfo : Terminfo :=
  { Terminfo.unloaded with inputs := [some [0o33], some (ascii "\x1bOC"), none, none, none, none] }

/-- The insertion of the right key calls `realloc` on the left key's acceptor. -/
theorem nrlDfaBuild_escapeLeft :
    escapeLeftTerminfo.Loadable ∧
      nrlDfaBuild escapeLeftTerminfo (ascii "vt100") dfaRoot = .error .childrenOfAcceptor := by
  exact ⟨by decide, rfl⟩

end Nanorl
