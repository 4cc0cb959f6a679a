import Nanorl.Model.Terminfo

/-!
# Nanorl.Model.Dfa

`dfa.c`: the tree of escape sequences, its construction from the capability
tables and its parser.

A node's `value` is a C union of a child array and an acceptor. The model has
one constructor for each member, so a node says which of the two was written
last; a node with an unwritten child array is `children` with no nodes. Using
the member that was not written last is a fault, and so is writing an acceptor
over a child array in use: what the program does from there on is not
determined by the source.
-/

namespace Nanorl

/-- `dfa_acceptor`, the union of two enumerations: the integer stored in it. -/
structure DfaAcceptor where
  bits : Nat
  deriving Repr, DecidableEq

/-- `dfa_result` -/
inductive DfaResult
  | empty
  | input
  | custom
  deriving Repr, DecidableEq

/-- `dfa_node`, by the union member written last. -/
inductive DfaNode
  | children (edge : Byte) (custom : Bool) (nodes : List DfaNode)
  | accept (edge : Byte) (custom : Bool) (value : DfaAcceptor)
  deriving Repr

namespace DfaNode

def edge : DfaNode → Byte
  | children edge _ _ => edge
  | accept edge _ _ => edge

def custom : DfaNode → Bool
  | children _ custom _ => custom
  | accept _ custom _ => custom

/-- `children_count` -/
def childrenCount : DfaNode → Nat
  | children _ _ nodes => nodes.length
  | accept _ _ _ => 0

/-- `value.accept`; the null pointer of an unwritten child array reads as 0. -/
def acceptor : DfaNode → DfaAcceptor
  | children _ _ _ => ⟨0⟩
  | accept _ _ value => value

end DfaNode

/-- The initial `root`. -/
def dfaRoot : DfaNode := .children 0 false []

/-! ### Construction -/

/-- The search of `dfa_insert` for the child to go on with: the rest of the
insertion works on the child with this edge, or on a fresh one behind the
others. -/
def insertChild (rest : DfaNode → Except Fault DfaNode) (edge : Byte) (custom : Bool) :
    List DfaNode → Except Fault (List DfaNode)
  | [] => do
      let child ← rest (.children edge custom [])
      pure [child]
  | child :: nodes =>
    if child.edge = edge then do
      let child ← rest child
      pure (child :: nodes)
    else do
      let nodes ← insertChild rest edge custom nodes
      pure (child :: nodes)

/-- `dfa_insert`, with the tree under `current` returned instead of updated in
place. -/
def dfaInsert (acceptValue : DfaAcceptor) (custom : Bool) :
    List Byte → DfaNode → Except Fault DfaNode
  | [], .children edge c [] => .ok (.accept edge c acceptValue)
  | [], .accept edge c _ => .ok (.accept edge c acceptValue)
  | [], .children _ _ (_ :: _) => .error .acceptOverChildren
  -- no child is found, so `realloc` is called on the acceptor
  | _ :: _, .accept _ _ _ => .error .childrenOfAcceptor
  | edge :: sequence, .children e c nodes => do
      let nodes ← insertChild (dfaInsert acceptValue custom sequence) edge custom nodes
      pure (.children e c nodes)

/-- What `nrl_dfa_build` passes to `dfa_insert`. -/
structure DfaEntry where
  sequence : List Byte
  accept : DfaAcceptor
  custom : Bool
  deriving Repr, DecidableEq

/-- The alias `PATCH_XTERM_OOB_BACKSPACE` gives the backspace key. -/
def xtermBackspace : List Byte := [0o10]

/-- The insertions of one loop of `nrl_dfa_build`. -/
def tableEntries (lookup : Nat → Option (List Byte)) (count : Nat) (custom : Bool) :
    List DfaEntry :=
  (List.range count).filterMap fun i => (lookup i).map fun sequence => ⟨sequence, ⟨i⟩, custom⟩

/-- All insertions of `nrl_dfa_build`, in its order. -/
def dfaEntries (t : Terminfo) (envTerm : List Byte) : List DfaEntry :=
  tableEntries (nrlLookupInput t) tiiCount false
    ++ (if strstr envTerm (ascii "xterm") then
          [⟨xtermBackspace, ⟨TerminfoInput.keyBackspace.id⟩, false⟩] else [])
    ++ tableEntries (nrlLookupCustom t) ticCount true

/-- `nrl_dfa_build`, with the xterm patch and custom escapes as in `config.h`. -/
def nrlDfaBuild (t : Terminfo) (envTerm : List Byte) (root : DfaNode) : Except Fault DfaNode :=
  Run.exec (fun e => dfaInsert e.accept e.custom e.sequence) (dfaEntries t envTerm) root

/-! ### Parsing -/

section Parse

variable {σ : Type} (nextChar : σ → Except Fault (Byte × σ))

mutual
/-- The loop of `nrl_dfa_parse` at node `trav`. -/
def DfaNode.parse : DfaNode → DfaAcceptor → σ → Except Fault (DfaResult × DfaAcceptor × σ)
  | .accept _ _ _, acceptBuf, s => do
      let (_, s) ← nextChar s
      pure (.empty, acceptBuf, s)
  | .children _ _ nodes, acceptBuf, s => do
      let (input, s) ← nextChar s
      DfaNode.parseChildren nodes input acceptBuf s
/-- The inner loop over the children of `trav`. -/
def DfaNode.parseChildren :
    List DfaNode → Byte → DfaAcceptor → σ → Except Fault (DfaResult × DfaAcceptor × σ)
  | [], _, acceptBuf, s => .ok (.empty, acceptBuf, s)
  | child :: nodes, input, acceptBuf, s =>
    if input = child.edge then
      if child.childrenCount = 0 then
        .ok (if child.custom then .custom else .input, child.acceptor, s)
      else DfaNode.parse child acceptBuf s
    else DfaNode.parseChildren nodes input acceptBuf s
end

/-- `nrl_dfa_parse`. The buffer for the acceptor keeps its old content when
nothing matches. -/
def nrlDfaParse (root : DfaNode) (acceptBuf : DfaAcceptor) (s : σ) :
    Except Fault (DfaResult × DfaAcceptor × σ) :=
  if root.childrenCount = 0 then .ok (.empty, acceptBuf, s)
  else root.parse nextChar acceptBuf s

end Parse

end Nanorl
