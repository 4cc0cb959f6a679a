import Mathlib.Data.List.Basic
import Mathlib.Data.List.Count
import Mathlib.Logic.Function.Iterate

/-!
# Nanorl.Lib.StackLanguage

**A printing language with a stack**, over an arbitrary alphabet, parameters and values.
A program emits text, pushes parameters and prints what it pops; one instruction changes
the parameters.

* `eval`: what a program prints, or nothing if it comes to an instruction it cannot
  perform.
* `eval_eq_none_iff`: that is so exactly if it holds an instruction that always fails, or
  a print that finds as many prints before it as pushes (`Stops`).
* `eval_congr`: only the changes of the parameters a run comes to count.
-/

namespace StackLanguage

inductive Instr (α κ : Type*)
  | emit (text : List α)
  | bump
  | push (k : κ)
  | print
  | fail
  deriving Repr, DecidableEq

/-- How parameters are changed and values are printed. -/
structure Language (α κ ν : Type*) where
  bump : (κ → ν) → κ → ν
  form : ν → List α

variable {α κ ν : Type*}

/-- What a program prints, from a stack with its top first. -/
def eval (L : Language α κ ν) : List (Instr α κ) → List ν → (κ → ν) → Option (List α)
  | [], _, _ => some []
  | .emit text :: prog, st, params => (eval L prog st params).map (text ++ ·)
  | .bump :: prog, st, params => eval L prog st (L.bump params)
  | .push k :: prog, st, params => eval L prog (params k :: st) params
  | .print :: _, [], _ => none
  | .print :: prog, v :: st, params => (eval L prog st params).map (L.form v ++ ·)
  | .fail :: _, _, _ => none

namespace Instr

def isPush : Instr α κ → Bool
  | push _ => true
  | _ => false

def isPrint : Instr α κ → Bool
  | print => true
  | _ => false

def isBump : Instr α κ → Bool
  | bump => true
  | _ => false

end Instr

/-- A print of the program finds the stack empty, which holds `depth` values at first. -/
def Underflows (depth : Nat) (prog : List (Instr α κ)) : Prop :=
  ∃ front, front ++ [.print] <+: prog ∧ depth + front.countP Instr.isPush ≤ front.countP Instr.isPrint

/-- The program comes to an instruction it cannot perform. -/
def Stops (depth : Nat) (prog : List (Instr α κ)) : Prop :=
  .fail ∈ prog ∨ Underflows depth prog

section Stops

variable {depth : Nat} {prog : List (Instr α κ)}

theorem not_underflows_nil : ¬ Underflows depth ([] : List (Instr α κ)) := by
  rintro ⟨front, hfront, -⟩
  simpa using List.prefix_nil.mp hfront

/-- A first instruction other than a print leaves the stack as deep as it makes it. -/
theorem underflows_cons {i : Instr α κ} (hprint : i.isPrint = false) :
    Underflows depth (i :: prog) ↔ Underflows (depth + if i.isPush then 1 else 0) prog := by
  constructor
  · rintro ⟨_ | ⟨j, front⟩, hfront, hdepth⟩
    · obtain ⟨rfl, -⟩ := List.cons_prefix_cons.mp hfront
      cases hprint
    · obtain ⟨rfl, hprefix⟩ := List.cons_prefix_cons.mp hfront
      refine ⟨front, hprefix, ?_⟩
      simp only [List.countP_cons, hprint] at hdepth
      simp only [Bool.false_eq_true, if_false] at hdepth
      omega
  · rintro ⟨front, hfront, hdepth⟩
    refine ⟨i :: front, List.cons_prefix_cons.mpr ⟨rfl, hfront⟩, ?_⟩
    simp only [List.countP_cons, hprint, Bool.false_eq_true, if_false]
    omega

theorem underflows_print_zero : Underflows 0 (.print :: prog) :=
  ⟨[], List.cons_prefix_cons.mpr ⟨rfl, List.nil_prefix⟩, Nat.le_refl 0⟩

theorem underflows_print_succ : Underflows (depth + 1) (.print :: prog) ↔ Underflows depth prog := by
  constructor
  · rintro ⟨_ | ⟨j, front⟩, hfront, hdepth⟩
    · simp at hdepth
    · obtain ⟨rfl, hprefix⟩ := List.cons_prefix_cons.mp hfront
      refine ⟨front, hprefix, ?_⟩
      rw [List.countP_cons, List.countP_cons, if_neg (by simp [Instr.isPush]),
        if_pos (by rfl)] at hdepth
      omega
  · rintro ⟨front, hfront, hdepth⟩
    refine ⟨.print :: front, List.cons_prefix_cons.mpr ⟨rfl, hfront⟩, ?_⟩
    rw [List.countP_cons, List.countP_cons, if_neg (by simp [Instr.isPush]), if_pos (by rfl)]
    omega

theorem stops_emit {text : List α} : Stops depth (.emit text :: prog) ↔ Stops depth prog := by
  rw [Stops, Stops, underflows_cons rfl]
  simp [Instr.isPush]

theorem stops_bump : Stops depth (.bump :: prog) ↔ Stops depth prog := by
  rw [Stops, Stops, underflows_cons rfl]
  simp [Instr.isPush]

theorem stops_push {k : κ} : Stops depth (.push k :: prog) ↔ Stops (depth + 1) prog := by
  rw [Stops, Stops, underflows_cons rfl]
  simp [Instr.isPush]

theorem stops_print_zero : Stops 0 (.print :: prog) := .inr underflows_print_zero

theorem stops_print_succ : Stops (depth + 1) (.print :: prog) ↔ Stops depth prog := by
  rw [Stops, Stops, underflows_print_succ]
  simp

end Stops

variable (L : Language α κ ν)

/-- A program prints nothing exactly if it comes to an instruction it cannot perform. -/
theorem eval_eq_none_iff {prog : List (Instr α κ)} {st : List ν} {params : κ → ν} :
    eval L prog st params = none ↔ Stops st.length prog := by
  fun_induction eval L prog st params with
  | case1 => simp [Stops, not_underflows_nil]
  | case2 text prog st params ih => rw [Option.map_eq_none_iff, ih, stops_emit]
  | case3 prog st params ih => rw [ih, stops_bump]
  | case4 k prog st params ih => rw [ih, stops_push, List.length_cons]
  | case5 => simp [stops_print_zero]
  | case6 prog params v st ih => rw [Option.map_eq_none_iff, ih, List.length_cons, stops_print_succ]
  | case7 => simp [Stops]

/-- Wherever the program comes to a change of the parameters, the two languages make the
same one. -/
def BumpsAlike (L L' : Language α κ ν) (prog : List (Instr α κ)) (depth : Nat) (params : κ → ν) : Prop :=
  ∀ front, front ++ [.bump] <+: prog → ¬ Stops depth front →
    L.bump (L'.bump^[front.countP Instr.isBump] params) = L'.bump (L'.bump^[front.countP Instr.isBump] params)

variable {L} {L' : Language α κ ν}

/-- What is left of that behind an instruction that is performed. -/
theorem BumpsAlike.behind {i : Instr α κ} {prog : List (Instr α κ)} {depth depth' : Nat}
    {params params' : κ → ν} (h : BumpsAlike L L' (i :: prog) depth params)
    (hstops : ∀ front, Stops depth (i :: front) → Stops depth' front)
    (hparams : ∀ n, L'.bump^[n] params' = L'.bump^[n + if i.isBump then 1 else 0] params) :
    BumpsAlike L L' prog depth' params' := by
  intro front hfront hrun
  have hi := h (i :: front) (List.cons_prefix_cons.mpr ⟨rfl, hfront⟩) fun hs => hrun (hstops front hs)
  rwa [List.countP_cons, ← hparams] at hi

/-- Two languages that print values alike evaluate a program alike, if they change the
parameters alike wherever it comes to that. -/
theorem eval_congr (hform : L.form = L'.form) {prog : List (Instr α κ)} {st : List ν} {params : κ → ν}
    (h : BumpsAlike L L' prog st.length params) : eval L prog st params = eval L' prog st params := by
  fun_induction eval L prog st params with
  | case1 => rfl
  | case2 text prog st params ih =>
    rw [eval, ih (h.behind (fun _ => stops_emit.mp) fun _ => rfl)]
  | case3 prog st params ih =>
    have hfirst : L.bump params = L'.bump params :=
      h [] (List.cons_prefix_cons.mpr ⟨rfl, List.nil_prefix⟩) (by simp [Stops, not_underflows_nil])
    rw [hfirst] at ih
    rw [eval, hfirst]
    exact ih (h.behind (fun _ => stops_bump.mp) fun _ => rfl)
  | case4 k prog st params ih =>
    rw [eval]
    exact ih (h.behind (fun _ => stops_push.mp) fun _ => rfl)
  | case5 => rfl
  | case6 prog params v st ih =>
    rw [eval, hform, ih (h.behind (fun _ => stops_print_succ.mp) fun _ => rfl)]
  | case7 => rfl

end StackLanguage
