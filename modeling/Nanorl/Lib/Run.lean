import Mathlib.Tactic.Common

/-!
# Nanorl.Lib.Run

Runs of a **fallible machine**: a step function into `Except ε` over a state
type `σ`. Three shapes of run are needed by programs that loop over their input.

* `exec` performs a list of commands in order and stops at the first fault.
  Its rules carry an invariant or a simulation relation from one command to a
  whole command list; `Guarded` says that a condition holds before every command.
* `outcomes` performs a list of commands that have outputs, and keeps these.
* `collect` repeats one step and gathers its outputs, up to and including the
  first output at which `stop` holds, with a bound on the number of steps.
  `Along` says that a condition holds in the state before every step of such a
  run, so that a step lemma which needs the condition lifts to the run.

`Ends` is what is said of a single computation, `Same` and `Leads` what is said of two: their
rules follow the binds.
Nothing here knows what the states, commands and outputs are.
-/

namespace Run

universe u

variable {ε σ τ ι ω : Type*}

/-- A successful bind splits into its two successful halves. -/
theorem bind_eq_ok {α β : Type u} {x : Except ε α} {f : α → Except ε β} {b : β} :
    (x >>= f) = .ok b ↔ ∃ a, x = .ok a ∧ f a = .ok b := by
  cases x <;> simp [bind, Except.bind]

/-- A failed bind failed in one of its two halves. -/
theorem bind_eq_error {α β : Type u} {x : Except ε α} {f : α → Except ε β} {e : ε} :
    (x >>= f) = .error e ↔ x = .error e ∨ ∃ a, x = .ok a ∧ f a = .error e := by
  cases x <;> simp [bind, Except.bind]

theorem map_eq_ok {α β : Type u} {x : Except ε α} {f : α → β} {b : β} :
    x.map f = .ok b ↔ ∃ a, x = .ok a ∧ f a = b := by
  cases x <;> simp [Except.map]

theorem isOk_iff {α : Type*} {x : Except ε α} : x.isOk = true ↔ ∃ a, x = .ok a := by
  cases x <;> simp [Except.isOk, Except.toBool]

theorem map_eq_error {α β : Type u} {x : Except ε α} {f : α → β} {e : ε} :
    x.map f = .error e ↔ x = .error e := by
  cases x <;> simp [Except.map]

/-- A computation whose result is only reshaped succeeds with it. -/
theorem exists_bind_pure {α β : Type u} {x : Except ε α} {f : α → β} :
    (∃ b, (x >>= fun a => pure (f a)) = .ok b) ↔ ∃ a, x = .ok a := by
  simp only [bind_eq_ok]
  constructor
  · rintro ⟨_, a, ha, -⟩
    exact ⟨a, ha⟩
  · rintro ⟨a, ha⟩
    exact ⟨f a, a, ha, rfl⟩

@[simp] theorem ok_bind {α β : Type u} (a : α) (f : α → Except ε β) :
    ((Except.ok a : Except ε α) >>= f) = f a := rfl

@[simp] theorem error_bind {α β : Type u} (e : ε) (f : α → Except ε β) :
    ((.error e : Except ε α) >>= f) = .error e := rfl

@[simp] theorem pure_eq_ok {α : Type u} (a : α) :
    (pure a : Except ε α) = .ok a := rfl

/-! ### Outcomes -/

/-- The triple of a computation without its precondition: a value fulfils `Q`, a
fault fulfils `F`. -/
structure Ends {α : Type*} (F : ε → Prop) (Q : α → Prop) (x : Except ε α) : Prop where
  of_ok : ∀ {a}, x = .ok a → Q a
  of_error : ∀ {e}, x = .error e → F e

namespace Ends

variable {F : ε → Prop}

theorem ok {α : Type*} {Q : α → Prop} {a : α} (h : Q a) : Ends F Q (.ok a : Except ε α) :=
  ⟨fun ha => Except.ok.inj ha ▸ h, fun he => by cases he⟩

theorem error {α : Type*} {Q : α → Prop} {e : ε} (h : F e) : Ends F Q (.error e : Except ε α) :=
  ⟨fun ha => (by cases ha), fun he => Except.error.inj he ▸ h⟩

theorem any {α : Type*} (x : Except ε α) : Ends (fun _ => True) (fun _ => True) x :=
  ⟨fun _ => trivial, fun _ => trivial⟩

/-- **Consequence rule.** -/
theorem mono {α : Type*} {Q R : α → Prop} {x : Except ε α} (h : Ends F Q x)
    (hQR : ∀ a, Q a → R a) : Ends F R x :=
  ⟨fun ha => hQR _ (h.of_ok ha), h.of_error⟩

/-- **Composition rule.** -/
theorem bind {α β : Type u} {Q : α → Prop} {R : β → Prop} {x : Except ε α}
    {f : α → Except ε β} (h : Ends F Q x) (hf : ∀ a, Q a → Ends F R (f a)) :
    Ends F R (x >>= f) := by
  cases x with
  | ok a => exact hf a (h.of_ok rfl)
  | error e => exact error (h.of_error rfl)

theorem map {α β : Type*} {Q : β → Prop} {x : Except ε α} {f : α → β}
    (h : Ends F (fun a => Q (f a)) x) : Ends F Q (x.map f) := by
  cases x with
  | ok a => exact ok (h.of_ok rfl)
  | error e => exact error (h.of_error rfl)

end Ends

/-! ### Two computations -/

/-- Two computations fail alike or come to values that `Q` relates. -/
inductive Same {α β : Type*} (Q : α → β → Prop) : Except ε α → Except ε β → Prop
  | ok {a : α} {b : β} : Q a b → Same Q (.ok a) (.ok b)
  | error (e : ε) : Same Q (.error e) (.error e)

namespace Same

theorem of_ok {α β : Type*} {Q : α → β → Prop} {x : Except ε α} {y : Except ε β} {a : α}
    (h : Same Q x y) (hx : x = .ok a) : ∃ b, y = .ok b ∧ Q a b := by
  cases h with
  | ok hQ =>
    obtain rfl := Except.ok.inj hx
    exact ⟨_, rfl, hQ⟩
  | error => cases hx

theorem refl {α : Type*} {Q : α → α → Prop} (hQ : ∀ a, Q a a) (x : Except ε α) : Same Q x x := by
  cases x with
  | ok a => exact .ok (hQ a)
  | error e => exact .error e

/-- **Consequence rule.** -/
theorem mono {α β : Type*} {Q R : α → β → Prop} {x : Except ε α} {y : Except ε β} (h : Same Q x y)
    (hQR : ∀ a b, Q a b → R a b) : Same R x y := by
  cases h with
  | ok hQ => exact .ok (hQR _ _ hQ)
  | error e => exact .error e

/-- What holds of the first computation may be added. -/
theorem and_left {α β : Type*} {F : ε → Prop} {Q : α → β → Prop} {R : α → Prop} {x : Except ε α}
    {y : Except ε β} (h : Same Q x y) (hx : Ends F R x) : Same (fun a b => Q a b ∧ R a) x y := by
  cases h with
  | ok hQ => exact .ok ⟨hQ, hx.of_ok rfl⟩
  | error e => exact .error e

/-- **Composition rule.** -/
theorem bind {α β γ δ : Type u} {Q : α → β → Prop} {R : γ → δ → Prop} {x : Except ε α}
    {y : Except ε β} {f : α → Except ε γ} {g : β → Except ε δ} (h : Same Q x y)
    (hfg : ∀ a b, Q a b → Same R (f a) (g b)) : Same R (x >>= f) (y >>= g) := by
  cases h with
  | ok hQ => exact hfg _ _ hQ
  | error e => exact .error e

end Same

/-! ### One computation behind another -/

/-- Where the first computation comes to a value, the second one comes to a value that `Q`
relates to it. -/
def Leads {α β : Type*} (Q : α → β → Prop) (x : Except ε α) (y : Except ε β) : Prop :=
  ∀ a, x = .ok a → ∃ b, y = .ok b ∧ Q a b

namespace Leads

theorem ok {α β : Type*} {Q : α → β → Prop} {a : α} {b : β} (h : Q a b) :
    Leads Q (.ok a : Except ε α) (.ok b) := by
  intro a' ha
  obtain rfl := Except.ok.inj ha
  exact ⟨b, rfl, h⟩

theorem error {α β : Type*} {Q : α → β → Prop} (e : ε) (y : Except ε β) :
    Leads Q (.error e : Except ε α) y := by
  intro a ha
  cases ha

theorem of_same {α β : Type*} {Q : α → β → Prop} {x : Except ε α} {y : Except ε β} (h : Same Q x y) :
    Leads Q x y :=
  fun _ => h.of_ok

theorem refl {α : Type*} {Q : α → α → Prop} (hQ : ∀ a, Q a a) (x : Except ε α) : Leads Q x x :=
  .of_same (.refl hQ x)

/-- **Composition rule.** -/
theorem bind {α β γ δ : Type u} {Q : α → β → Prop} {R : γ → δ → Prop} {x : Except ε α}
    {y : Except ε β} {f : α → Except ε γ} {g : β → Except ε δ} (h : Leads Q x y)
    (hfg : ∀ a b, Q a b → Leads R (f a) (g b)) : Leads R (x >>= f) (y >>= g) := by
  intro c hc
  obtain ⟨a, ha, hf⟩ := bind_eq_ok.mp hc
  obtain ⟨b, rfl, hQ⟩ := h a ha
  exact hfg a b hQ c hf

end Leads

/-! ### Command lists -/

/-- Perform the commands in order, stopping at the first fault. -/
def exec (step : ι → σ → Except ε σ) : List ι → σ → Except ε σ
  | [], s => .ok s
  | c :: cs, s =>
    match step c s with
    | .ok s' => exec step cs s'
    | .error e => .error e

/-- `C` holds of every command of the run and the state it is performed in. -/
def Guarded (step : ι → σ → Except ε σ) (C : ι → σ → Prop) : List ι → σ → Prop
  | [], _ => True
  | c :: cs, s => C c s ∧ ∀ s', step c s = .ok s' → Guarded step C cs s'

instance decidableForallOk {α : Type*} {C : α → Prop} [DecidablePred C] :
    ∀ x : Except ε α, Decidable (∀ a, x = .ok a → C a)
  | .ok a => decidable_of_iff (C a) ⟨fun h _ he => Except.ok.inj he ▸ h, fun h => h a rfl⟩
  | .error _ => isTrue nofun

instance Guarded.decidable {step : ι → σ → Except ε σ} {C : ι → σ → Prop}
    [∀ c s, Decidable (C c s)] : ∀ cs s, Decidable (Guarded step C cs s)
  | [], _ => isTrue trivial
  | c :: cs, s =>
    have : DecidablePred (Guarded step C cs) := Guarded.decidable cs
    inferInstanceAs (Decidable (C c s ∧ ∀ s', step c s = .ok s' → Guarded step C cs s'))

section Exec

variable {step : ι → σ → Except ε σ} {F : ε → Prop}

@[simp] theorem exec_nil (s : σ) : exec step [] s = .ok s := rfl

theorem exec_cons (c : ι) (cs : List ι) (s : σ) :
    exec step (c :: cs) s = step c s >>= exec step cs := by
  rw [exec]
  cases step c s <;> rfl

theorem exec_cons_ok {c : ι} {cs : List ι} {s s' : σ} :
    exec step (c :: cs) s = .ok s' ↔
      ∃ t, step c s = .ok t ∧ exec step cs t = .ok s' := by
  rw [exec_cons, bind_eq_ok]

theorem exec_append (cs ds : List ι) (s : σ) :
    exec step (cs ++ ds) s = exec step cs s >>= exec step ds := by
  induction cs generalizing s with
  | nil => rfl
  | cons c cs ih =>
    rw [List.cons_append, exec, exec]
    cases step c s with
    | ok t => exact ih t
    | error e => rfl

theorem exec_map {κ : Type*} (f : κ → ι) (cs : List κ) (s : σ) :
    exec step (cs.map f) s = exec (fun c => step (f c)) cs s := by
  induction cs generalizing s with
  | nil => rfl
  | cons c cs ih =>
    rw [List.map_cons, exec, exec]
    cases step (f c) s with
    | ok t => exact ih t
    | error e => rfl

/-- **Simulation rule.** If every command keeps the relation to the total abstract
command `f`, so does every run, and its faults are those of the commands. -/
theorem exec_simulation {R : σ → τ → Prop} {f : τ → ι → τ}
    (hstep : ∀ c s t, R s t → Ends F (fun s' => R s' (f t c)) (step c s)) :
    ∀ {cs : List ι} {s : σ} {t : τ},
      R s t → Ends F (fun s' => R s' (cs.foldl f t)) (exec step cs s) := by
  intro cs
  induction cs with
  | nil => intro s t hR; exact .ok hR
  | cons c cs ih =>
    intro s t hR
    have h := hstep c s t hR
    rw [exec]
    cases hc : step c s with
    | ok s' => exact ih (h.of_ok hc)
    | error e => exact .error (h.of_error hc)

/-- **Two-run rule.** If commands that correspond keep the relation, so do runs of commands
that correspond one by one. -/
theorem exec_same {κ : Type*} {step' : κ → τ → Except ε τ} {A : ι → κ → Prop} {R : σ → τ → Prop}
    (hstep : ∀ c d s t, A c d → R s t → Same R (step c s) (step' d t)) {cs : List ι} {ds : List κ}
    (h : List.Forall₂ A cs ds) : ∀ {s : σ} {t : τ}, R s t → Same R (exec step cs s) (exec step' ds t) := by
  induction h with
  | nil => intro s t hR; exact .ok hR
  | @cons c d cs ds hcd _ ih =>
    intro s t hR
    have hfirst := hstep c d s t hcd hR
    rw [exec, exec]
    generalize step c s = x at hfirst ⊢
    generalize step' d t = y at hfirst ⊢
    cases hfirst with
    | ok hR' => exact ih hR'
    | error e => exact .error e

/-- **Invariant rule.** What every guarded command preserves, a guarded run preserves. -/
theorem exec_guarded {I : σ → Prop} {C : ι → σ → Prop}
    (hstep : ∀ c s s', I s → C c s → step c s = .ok s' → I s') :
    ∀ {cs : List ι} {s s' : σ}, I s → Guarded step C cs s → exec step cs s = .ok s' → I s' := by
  intro cs
  induction cs with
  | nil =>
    intro s s' hI _ h
    obtain rfl := Except.ok.inj h
    exact hI
  | cons c cs ih =>
    intro s s' hI hC h
    obtain ⟨t, ht, hrest⟩ := exec_cons_ok.mp h
    exact ih (hstep c s t hI hC.1 ht) (hC.2 t ht) hrest

/-- **Progress rule.** Where every guarded command comes to an end and keeps the invariant, so
does a guarded run. -/
theorem exec_progress {I : σ → Prop} {C : ι → σ → Prop}
    (hstep : ∀ c s, I s → C c s → ∃ s', step c s = .ok s' ∧ I s') :
    ∀ {cs : List ι} {s : σ}, I s → Guarded step C cs s → ∃ s', exec step cs s = .ok s' ∧ I s' := by
  intro cs
  induction cs with
  | nil => intro s hI _; exact ⟨s, rfl, hI⟩
  | cons c cs ih =>
    intro s hI hC
    obtain ⟨t, ht, hIt⟩ := hstep c s hI hC.1
    obtain ⟨s', hs', hI'⟩ := ih hIt (hC.2 t ht)
    exact ⟨s', exec_cons_ok.mpr ⟨t, ht, hs'⟩, hI'⟩

/-- **Safety rule.** What every permitted command keeps, and where it may fail, a run of
permitted commands keeps, and fails likewise. -/
theorem exec_ends {I : σ → Prop} {C : ι → Prop}
    (hstep : ∀ c s, C c → I s → Ends F I (step c s)) :
    ∀ {cs : List ι} {s : σ}, (∀ c ∈ cs, C c) → I s → Ends F I (exec step cs s) := by
  intro cs
  induction cs with
  | nil => intro s _ hI; exact .ok hI
  | cons c cs ih =>
    intro s hC hI
    rw [exec_cons]
    exact (hstep c s (hC c List.mem_cons_self) hI).bind fun t hIt =>
      ih (fun c' hc' => hC c' (List.mem_cons_of_mem _ hc')) hIt

theorem guarded_of_forall {C : ι → σ → Prop} (h : ∀ c s, C c s) :
    ∀ {cs : List ι} {s : σ}, Guarded step C cs s
  | [], _ => trivial
  | _ :: _, _ => ⟨h _ _, fun _ _ => guarded_of_forall h⟩

/-- The two parts of a guarded run are guarded. -/
theorem guarded_append {C : ι → σ → Prop} {cs ds : List ι} {s : σ} :
    Guarded step C (cs ++ ds) s ↔
      Guarded step C cs s ∧ ∀ s', exec step cs s = .ok s' → Guarded step C ds s' := by
  induction cs generalizing s with
  | nil => simp [Guarded]
  | cons c cs ih =>
    rw [List.cons_append, Guarded, Guarded, and_assoc]
    refine and_congr_right fun _ => ⟨fun h => ⟨fun t ht => (ih.mp (h t ht)).1, fun s' hs' => ?_⟩,
      fun h t ht => ih.mpr ⟨h.1 t ht, fun s' hs' => h.2 s' (exec_cons_ok.mpr ⟨t, ht, hs'⟩)⟩⟩
    obtain ⟨t, ht, hrest⟩ := exec_cons_ok.mp hs'
    exact (ih.mp (h t ht)).2 s' hrest

theorem Guarded.mono {C D : ι → σ → Prop} (h : ∀ c s, C c s → D c s) :
    ∀ {cs : List ι} {s : σ}, Guarded step C cs s → Guarded step D cs s
  | [], _, _ => trivial
  | _ :: _, _, hC => ⟨h _ _ hC.1, fun s' hs => Guarded.mono h (hC.2 s' hs)⟩

/-- **Exchange rule.** Two conditions that agree on every permitted command in a state of the
invariant guard the same runs, if the first of them keeps the invariant. -/
theorem guarded_iff {I : σ → Prop} {M C D : ι → σ → Prop}
    (hiff : ∀ c s, I s → M c s → (C c s ↔ D c s))
    (hstep : ∀ c s s', I s → M c s → C c s → step c s = .ok s' → I s') :
    ∀ {cs : List ι} {s : σ}, I s → Guarded step M cs s → (Guarded step C cs s ↔ Guarded step D cs s) := by
  intro cs
  induction cs with
  | nil => intro s _ _; exact Iff.rfl
  | cons c cs ih =>
    intro s hI hM
    rw [Guarded, Guarded, ← hiff c s hI hM.1]
    refine and_congr_right fun hC => ?_
    exact forall₂_congr fun s' hs' => ih (hstep c s s' hI hM.1 hC hs') (hM.2 s' hs')

/-- What every command preserves, a run preserves. -/
theorem exec_invariant {I : σ → Prop} (hstep : ∀ c s s', I s → step c s = .ok s' → I s')
    {cs : List ι} {s s' : σ} (hI : I s) (h : exec step cs s = .ok s') : I s' :=
  exec_guarded (C := fun _ _ => True) (fun c s s' hI _ => hstep c s s' hI) hI
    (guarded_of_forall fun _ _ => trivial) h

/-- A command on a state that carries a record of the run along. -/
def recorded (step : ι → σ → Except ε σ) (record : ι → σ → ω → ω) (c : ι) (s : ω × σ) :
    Except ε (ω × σ) :=
  (step c s.2).map fun s' => (record c s.2 s.1, s')

end Exec

/-! ### Repeated steps with outputs -/

/-- The outputs of at most `n` steps, up to and including the first one at
which `stop` holds. -/
def collect (step : σ → Except ε (ω × σ)) (stop : ω → Bool) :
    Nat → σ → Except ε (List ω)
  | 0, _ => .ok []
  | n + 1, s =>
    match step s with
    | .error e => .error e
    | .ok (o, s') =>
      if stop o then .ok [o] else (collect step stop n s').map (o :: ·)

/-- `C` holds in the state before each of the first `n` steps of the run. -/
def Along (step : σ → Except ε (ω × σ)) (stop : ω → Bool) (C : σ → Prop) :
    Nat → σ → Prop
  | 0, _ => True
  | n + 1, s => C s ∧
    ∀ o s', step s = .ok (o, s') → stop o = false → Along step stop C n s'

instance Along.decidable {step : σ → Except ε (ω × σ)} {stop : ω → Bool} {C : σ → Prop}
    [DecidablePred C] : ∀ n s, Decidable (Along step stop C n s)
  | 0, _ => isTrue trivial
  | n + 1, s =>
    have : DecidablePred (Along step stop C n) := Along.decidable n
    decidable_of_iff
      (C s ∧ ∀ r, step s = .ok r → stop r.1 = false → Along step stop C n r.2)
      ⟨fun h => ⟨h.1, fun o s' => h.2 (o, s')⟩, fun h => ⟨h.1, fun r => h.2 r.1 r.2⟩⟩

/-- The outputs of the first `n` steps of a machine that cannot fail. -/
def outputs (f : τ → ω × τ) (stop : ω → Bool) : Nat → τ → List ω
  | 0, _ => []
  | n + 1, t =>
    if stop (f t).1 then [(f t).1] else (f t).1 :: outputs f stop n (f t).2

section Collect

variable {step : σ → Except ε (ω × σ)} {stop : ω → Bool} {f : τ → ω × τ}

theorem collect_succ {n : Nat} {s s' : σ} {o : ω} (h : step s = .ok (o, s')) :
    collect step stop (n + 1) s =
      if stop o then .ok [o] else (collect step stop n s').map (o :: ·) := by
  rw [collect, h]

/-- The condition along a run may be weakened. -/
theorem Along.imp {C D : σ → Prop} (h : ∀ s, C s → D s) :
    ∀ {n : Nat} {s : σ}, Along step stop C n s → Along step stop D n s := by
  intro n
  induction n with
  | zero => intro s _; trivial
  | succ n ih =>
    intro s hC
    exact ⟨h s hC.1, fun o s' hs hgoes => ih (hC.2 o s' hs hgoes)⟩

/-- A condition that holds along a run up to the stop holds along every number of steps. -/
theorem Along.of_stopped {C : σ → Prop} :
    ∀ {n : Nat} {s : σ} {os : List ω}, Along step stop C n s → collect step stop n s = .ok os →
      (∃ o ∈ os, stop o) → ∀ m, Along step stop C m s := by
  intro n
  induction n with
  | zero =>
    intro s os _ h hstopped
    obtain rfl := Except.ok.inj h
    obtain ⟨o, ho, -⟩ := hstopped
    exact absurd ho List.not_mem_nil
  | succ n ih =>
    intro s os hC h hstopped m
    cases m with
    | zero => trivial
    | succ m =>
      refine ⟨hC.1, fun o s' hs hgoes => ?_⟩
      rw [collect_succ hs, if_neg (by simp [hgoes])] at h
      obtain ⟨os', hos', rfl⟩ := map_eq_ok.mp h
      obtain ⟨o', ho', hstop'⟩ := hstopped
      rcases List.mem_cons.mp ho' with rfl | ho'
      · exact absurd (hstop'.symm.trans hgoes) (by decide)
      · exact ih (hC.2 o s' hs hgoes) hos' ⟨o', ho', hstop'⟩ m

/-- **Simulation rule.** A machine whose steps under `C` are matched by the
total machine `f` has the same outputs, as long as `C` holds along its run. -/
theorem collect_eq_outputs {R : σ → τ → Prop} {C : σ → Prop}
    (hstep : ∀ s t, R s t → C s →
      ∃ s', step s = .ok ((f t).1, s') ∧ (stop (f t).1 = false → R s' (f t).2)) :
    ∀ {n : Nat} {s : σ} {t : τ}, R s t → Along step stop C n s →
      collect step stop n s = .ok (outputs f stop n t) := by
  intro n
  induction n with
  | zero => intro s t _ _; rfl
  | succ n ih =>
    intro s t hR hC
    obtain ⟨hCs, hrest⟩ := hC
    obtain ⟨s', hs, hR'⟩ := hstep s t hR hCs
    rw [collect_succ hs, outputs]
    by_cases hstop : stop (f t).1
    · rw [if_pos hstop, if_pos hstop]
    · rw [if_neg hstop, if_neg hstop]
      have hstop' : stop (f t).1 = false := by simpa using hstop
      rw [ih (hR' hstop') (hrest _ _ hs hstop')]
      rfl

/-- **Termination rule.** If every step under `C` either stops or brings a bound
down, a run along which `C` holds stops. -/
theorem collect_stops {I : Nat → σ → Prop} {C : σ → Prop}
    (hstep : ∀ k s, I k s → C s →
      ∃ o s', step s = .ok (o, s') ∧ (stop o = false → ∃ k' < k, I k' s')) :
    ∀ {k : Nat} {s : σ}, I k s → (∀ n, Along step stop C n s) →
      ∃ n os, collect step stop n s = .ok os ∧ ∃ o ∈ os, stop o := by
  intro k
  induction k using Nat.strongRecOn with
  | _ k ih =>
    intro s hI hC
    obtain ⟨o, s', hs, hnext⟩ := hstep k s hI (hC 1).1
    by_cases hstop : stop o
    · refine ⟨1, [o], ?_, o, List.mem_singleton.mpr rfl, hstop⟩
      rw [collect_succ hs, if_pos hstop]
    · have hstop' : stop o = false := by simpa using hstop
      obtain ⟨k', hk', hI'⟩ := hnext hstop'
      obtain ⟨n, os, hos, o', ho', hso'⟩ :=
        ih k' hk' hI' (fun n => (hC (n + 1)).2 o s' hs hstop')
      refine ⟨n + 1, o :: os, ?_, o', List.mem_cons_of_mem _ ho', hso'⟩
      rw [collect_succ hs, if_neg hstop, hos]
      rfl

/-- **Divergence rule.** A run that stays within an invariant whose steps do not
stop, does not stop. -/
theorem collect_diverges {I : σ → Prop}
    (hstep : ∀ s, I s → ∃ o s', step s = .ok (o, s') ∧ stop o = false ∧ I s') :
    ∀ {n : Nat} {s : σ} {os : List ω}, I s → collect step stop n s = .ok os →
      ∀ o ∈ os, stop o = false := by
  intro n
  induction n with
  | zero =>
    intro s os _ h o ho
    obtain rfl := Except.ok.inj h
    exact absurd ho List.not_mem_nil
  | succ n ih =>
    intro s os hI h o ho
    obtain ⟨o₁, s', hs, hstop, hI'⟩ := hstep s hI
    rw [collect_succ hs, if_neg (by simp [hstop])] at h
    cases hrest : collect step stop n s' with
    | error e => simp [hrest, Except.map] at h
    | ok rest =>
      rw [hrest] at h
      obtain rfl := Except.ok.inj h
      rcases List.mem_cons.mp ho with rfl | ho
      · exact hstop
      · exact ih hI' hrest o ho

end Collect

/-! ### Commands with outputs -/

/-- The outputs of a list of commands, one after the other. -/
def outcomes (step : ι → σ → Except ε (ω × σ)) : List ι → σ → Except ε (List ω × σ)
  | [], s => .ok ([], s)
  | c :: cs, s =>
    match step c s with
    | .error e => .error e
    | .ok (o, s') => (outcomes step cs s').map fun r => (o :: r.1, r.2)

/-- **Progress rule.** If every command comes to an end with the output `out` says, where the
commands that are still to come are the same as before without it, so does a run. -/
theorem outcomes_progress {step : ι → σ → Except ε (ω × σ)} {out : ι → ω} {I : List ι → σ → Prop}
    (hstep : ∀ c cs s, I (c :: cs) s → ∃ s', step c s = .ok (out c, s') ∧ I cs s') :
    ∀ {cs : List ι} {s : σ}, I cs s → ∃ s', outcomes step cs s = .ok (cs.map out, s') ∧ I [] s' := by
  intro cs
  induction cs with
  | nil => exact fun {s} hI => ⟨s, rfl, hI⟩
  | cons c cs ih =>
    intro s hI
    obtain ⟨s₁, hs₁, hI₁⟩ := hstep c cs s hI
    obtain ⟨s₂, hs₂, hI₂⟩ := ih hI₁
    refine ⟨s₂, ?_, hI₂⟩
    rw [outcomes, hs₁]
    dsimp only
    rw [hs₂]
    rfl

end Run
