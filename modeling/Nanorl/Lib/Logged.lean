import Nanorl.Lib.Run

/-!
# Nanorl.Lib.Logged

**Computations that keep a log**: a fallible computation together with the events on its
way, which are there whether it succeeds or fails.

* `Erases`: without its log the computation is a given one of `Except ε`.
* `Safe`: every event is good, and the computation ends as `Run.Ends` says.

The rules of both follow the binds; `Safe.exec` lifts a step that keeps an invariant to
every list of commands.
-/

universe u

/-- A computation with the events up to its end. -/
structure Logged (ω ε α : Type u) where
  log : List ω
  result : Except ε α

namespace Logged

variable {ω ε α β γ δ ι σ : Type u}

/-- One event. -/
def emit (event : ω) : Logged ω ε PUnit := ⟨[event], .ok ⟨⟩⟩

/-- A computation without events. -/
def lift (x : Except ε α) : Logged ω ε α := ⟨[], x⟩

instance : Monad (Logged ω ε) where
  pure a := ⟨[], .ok a⟩
  bind x f :=
    match x.result with
    | .ok a => ⟨x.log ++ (f a).log, (f a).result⟩
    | .error e => ⟨x.log, .error e⟩

theorem result_bind (x : Logged ω ε α) (f : α → Logged ω ε β) :
    (x >>= f).result = x.result >>= fun a => (f a).result := by
  obtain ⟨log, _ | a⟩ := x <;> rfl

/-- Performs commands in order. -/
def exec (step : ι → σ → Logged ω ε σ) : List ι → σ → Logged ω ε σ
  | [], s => pure s
  | i :: is, s => step i s >>= exec step is

/-! ### Erasure -/

/-- Without its log, and seen through `f`, the computation is `y`. -/
def Erases (x : Logged ω ε α) (f : α → β) (y : Except ε β) : Prop := x.result.map f = y

namespace Erases

theorem pure (a : α) (f : α → β) : Erases (Pure.pure a : Logged ω ε α) f (.ok (f a)) := rfl

theorem lift (x : Except ε α) : Erases (Logged.lift x : Logged ω ε α) id x := by
  cases x <;> rfl

/-- Events are erased. -/
theorem emit_bind {event : ω} {x : PUnit → Logged ω ε α} {f : α → β} {y : Except ε β}
    (h : Erases (x ⟨⟩) f y) : Erases (emit event >>= x) f y :=
  h

/-- **Composition rule.** -/
theorem bind {x : Logged ω ε α} {f : α → β} {y : Except ε β} {g : α → Logged ω ε γ} {f' : γ → δ}
    {h : β → Except ε δ} (hx : Erases x f y) (hg : ∀ a, Erases (g a) f' (h (f a))) :
    Erases (x >>= g) f' (y >>= h) := by
  subst hx
  rw [Erases, result_bind]
  cases x.result with
  | error e => rfl
  | ok a => exact hg a

/-- A computation without events whose value is only completed. -/
theorem lift_bind {x : Except ε α} {g : α → Logged ω ε β} {f : β → α}
    (hg : ∀ a, Erases (g a) f (.ok a)) : Erases (Logged.lift x >>= g) f x := by
  rw [Erases, result_bind]
  cases x with
  | error e => rfl
  | ok a => exact hg a

theorem exec {step : ι → σ → Logged ω ε σ} {f : σ → α} {step' : ι → α → Except ε α}
    (hstep : ∀ i s, Erases (step i s) f (step' i (f s))) (is : List ι) (s : σ) :
    Erases (Logged.exec step is s) f (Run.exec step' is (f s)) := by
  induction is generalizing s with
  | nil => rfl
  | cons i is ih =>
    rw [Run.exec_cons]
    exact (hstep i s).bind ih

end Erases

/-! ### Outcomes -/

/-- Every event is good; a value fulfils `Q`, a fault fulfils `F`. -/
structure Safe (good : ω → Prop) (F : ε → Prop) (Q : α → Prop) (x : Logged ω ε α) : Prop where
  events : ∀ event ∈ x.log, good event
  ends : Run.Ends F Q x.result

namespace Safe

variable {good : ω → Prop} {F : ε → Prop}

theorem pure {Q : α → Prop} {a : α} (h : Q a) : Safe good F Q (Pure.pure a : Logged ω ε α) :=
  ⟨fun _ hevent => absurd hevent List.not_mem_nil, .ok h⟩

theorem lift {Q : α → Prop} {x : Except ε α} (h : Run.Ends F Q x) :
    Safe good F Q (Logged.lift x : Logged ω ε α) :=
  ⟨fun _ hevent => absurd hevent List.not_mem_nil, h⟩

/-- **Consequence rule.** -/
theorem mono {Q R : α → Prop} {x : Logged ω ε α} (h : Safe good F Q x) (hQR : ∀ a, Q a → R a) :
    Safe good F R x :=
  ⟨h.events, h.ends.mono hQR⟩

/-- **Composition rule.** -/
theorem bind {Q : α → Prop} {R : β → Prop} {x : Logged ω ε α} {f : α → Logged ω ε β}
    (h : Safe good F Q x) (hf : ∀ a, Q a → Safe good F R (f a)) : Safe good F R (x >>= f) := by
  obtain ⟨log, e | a⟩ := x
  · exact ⟨h.events, .error (h.ends.of_error rfl)⟩
  · have hrest := hf a (h.ends.of_ok rfl)
    exact ⟨fun event hevent => (List.mem_append.mp hevent).elim (h.events event) (hrest.events event),
      hrest.ends⟩

/-- A good event in front. -/
theorem emit_bind {event : ω} {R : β → Prop} {f : PUnit → Logged ω ε β} (h : good event)
    (hf : Safe good F R (f ⟨⟩)) : Safe good F R (emit event >>= f) :=
  ⟨List.forall_mem_cons.mpr ⟨h, hf.events⟩, hf.ends⟩

/-- An invariant of every step is one of every run. -/
theorem exec {step : ι → σ → Logged ω ε σ} {I : σ → Prop}
    (hstep : ∀ i s, I s → Safe good F I (step i s)) (is : List ι) {s : σ} (h : I s) :
    Safe good F I (Logged.exec step is s) := by
  induction is generalizing s with
  | nil => exact pure h
  | cons i is ih => exact (hstep i s h).bind fun _ => ih

end Safe

end Logged
