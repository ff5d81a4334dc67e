import Mathlib.Order.Lattice

/-!
# Runs of a deterministic system

A system is a step function from a state and an event to a state and an output.
`after` and `outputs` run it over a list of events, and `Admissible ok` says
that every event of the list was allowed in the state it was met in.

* `Admissible.invariant`: what every allowed step keeps holds after every
  allowed run; `Admissible.forall_outputs` and `Admissible.strengthen` use such
  an invariant on the outputs and on the events;
* `Admissible.lockstep`: two systems fed the same events stay related and give
  the same outputs when every allowed step keeps the relation;
* `Admissible.replays`: the outputs are those of a run of a relation (`Replays`);
* `Admissible.drop`: events that leave the state alone can be dropped, and the
  others keep their outputs;
* `peak f` is the largest value of `f` so far, and `Admissible.peak_invariant` the
  invariant rule for states and peaks together;
* `Admissible.amortized`: what a run costs, by a potential;
* a run of steps that each use up some of a supply is no longer than the supply
  (`Admissible.length_add_le`).
-/

namespace TorchTest

variable {σ τ ε ρ : Type*}

/-- The state after a list of events. -/
def after (step : σ → ε → σ × ρ) : σ → List ε → σ
  | s, [] => s
  | s, e :: es => after step (step s e).1 es

/-- The outputs of a list of events, in order. -/
def outputs (step : σ → ε → σ × ρ) : σ → List ε → List ρ
  | _, [] => []
  | s, e :: es => (step s e).2 :: outputs step (step s e).1 es

/-- Every event is allowed in the state it meets. -/
def Admissible (step : σ → ε → σ × ρ) (ok : σ → ε → Prop) : σ → List ε → Prop
  | _, [] => True
  | s, e :: es => ok s e ∧ Admissible step ok (step s e).1 es

variable {step : σ → ε → σ × ρ} {ok ok' : σ → ε → Prop} {s : σ} {e : ε} {es es' : List ε}

@[simp] theorem after_nil : after step s [] = s := rfl

@[simp] theorem after_cons : after step s (e :: es) = after step (step s e).1 es := rfl

theorem after_append : after step s (es ++ es') = after step (after step s es) es' := by
  induction es generalizing s with
  | nil => rfl
  | cons e es ih => exact ih

@[simp] theorem outputs_nil : outputs step s [] = [] := rfl

@[simp] theorem outputs_cons :
    outputs step s (e :: es) = (step s e).2 :: outputs step (step s e).1 es := rfl

theorem outputs_append :
    outputs step s (es ++ es') = outputs step s es ++ outputs step (after step s es) es' := by
  induction es generalizing s with
  | nil => rfl
  | cons e es ih => exact congrArg (_ :: ·) ih

/-- Renaming the events of a run is renaming what the step sees. -/
theorem after_map {ε' : Type*} {f : ε' → ε} {es : List ε'} :
    after step s (es.map f) = after (fun s e => step s (f e)) s es := by
  induction es generalizing s with
  | nil => rfl
  | cons e es ih => exact ih

theorem outputs_map {ε' : Type*} {f : ε' → ε} {es : List ε'} :
    outputs step s (es.map f) = outputs (fun s e => step s (f e)) s es := by
  induction es generalizing s with
  | nil => rfl
  | cons e es ih => exact congrArg (_ :: ·) ih

@[simp] theorem admissible_nil : Admissible step ok s [] := True.intro

@[simp] theorem admissible_cons :
    Admissible step ok s (e :: es) ↔ ok s e ∧ Admissible step ok (step s e).1 es := Iff.rfl

theorem admissible_append :
    Admissible step ok s (es ++ es') ↔
      Admissible step ok s es ∧ Admissible step ok (after step s es) es' := by
  induction es generalizing s with
  | nil => simp
  | cons e es ih => simp only [List.cons_append, admissible_cons, ih, after_cons, and_assoc]

theorem admissible_and :
    Admissible step (fun s e => ok s e ∧ ok' s e) s es ↔
      Admissible step ok s es ∧ Admissible step ok' s es := by
  induction es generalizing s with
  | nil => simp
  | cons e es ih => simp only [admissible_cons, ih, and_and_and_comm]

theorem Admissible.mono (run : Admissible step ok s es) (weaker : ∀ s e, ok s e → ok' s e) :
    Admissible step ok' s es := by
  induction es generalizing s with
  | nil => exact True.intro
  | cons e es ih => exact ⟨weaker s e run.1, ih run.2⟩

instance admissibleDecidable [∀ s e, Decidable (ok s e)] :
    ∀ (s : σ) (es : List ε), Decidable (Admissible step ok s es)
  | _, [] => isTrue True.intro
  | s, e :: es =>
      have := admissibleDecidable (step s e).1 es
      inferInstanceAs (Decidable (ok s e ∧ Admissible step ok (step s e).1 es))

/-- The invariant rule: one step at a time suffices. -/
theorem Admissible.invariant {I : σ → Prop} (run : Admissible step ok s es) (start : I s)
    (keep : ∀ s e, I s → ok s e → I (step s e).1) : I (after step s es) := by
  induction es generalizing s with
  | nil => exact start
  | cons e es ih => exact ih run.2 (keep s e start run.1)

/-- Along an invariant, what holds of every allowed output holds of all outputs. -/
theorem Admissible.forall_outputs {I : σ → Prop} {P : ρ → Prop} (run : Admissible step ok s es)
    (start : I s) (keep : ∀ s e, I s → ok s e → I (step s e).1)
    (output : ∀ s e, I s → ok s e → P (step s e).2) : ∀ r ∈ outputs step s es, P r := by
  induction es generalizing s with
  | nil => exact fun r member => nomatch member
  | cons e es ih =>
    exact List.forall_mem_cons.mpr
      ⟨output s e start run.1, ih run.2 (keep s e start run.1)⟩

/-- What holds of every output of a step holds of all outputs of a run. -/
theorem forall_outputs {P : ρ → Prop} (output : ∀ s e, P (step s e).2) :
    ∀ r ∈ outputs step s es, P r := by
  induction es generalizing s with
  | nil => exact fun r member => nomatch member
  | cons e es ih => exact List.forall_mem_cons.mpr ⟨output s e, ih⟩

/-- Along an invariant, what is allowed may be read as what the invariant makes of it. -/
theorem Admissible.strengthen {I : σ → Prop} (run : Admissible step ok s es) (start : I s)
    (keep : ∀ s e, I s → ok s e → I (step s e).1) (stronger : ∀ s e, I s → ok s e → ok' s e) :
    Admissible step ok' s es := by
  induction es generalizing s with
  | nil => exact True.intro
  | cons e es ih => exact ⟨stronger s e start run.1, ih run.2 (keep s e start run.1)⟩

/-- The simulation rule for two systems that are fed the same events. -/
theorem Admissible.lockstep {step' : τ → ε → τ × ρ} {R : σ → τ → Prop} {t : τ}
    (run : Admissible step ok s es) (start : R s t)
    (keep : ∀ s t e, R s t → ok s e → R (step s e).1 (step' t e).1 ∧ (step s e).2 = (step' t e).2) :
    R (after step s es) (after step' t es) ∧ outputs step s es = outputs step' t es := by
  induction es generalizing s t with
  | nil => exact ⟨start, rfl⟩
  | cons e es ih =>
    rcases keep s t e start run.1 with ⟨related, same⟩
    rcases ih run.2 related with ⟨final, rest⟩
    refine ⟨final, ?_⟩
    rw [outputs_cons, outputs_cons, same, rest]

/-- A run, with its outputs, of a system that is given by a relation. -/
inductive Replays (serves : τ → ε → ρ → τ → Prop) : τ → List ε → List ρ → τ → Prop
  | nil (t : τ) : Replays serves t [] [] t
  | cons {t t' t'' : τ} {e : ε} {r : ρ} {es : List ε} {rs : List ρ} (first : serves t e r t')
      (rest : Replays serves t' es rs t'') : Replays serves t (e :: es) (r :: rs) t''

/-- The simulation rule for a system and a relation that serves the same events. -/
theorem Admissible.replays {serves : τ → ε → ρ → τ → Prop} {R : σ → τ → Prop} {t : τ}
    (run : Admissible step ok s es) (start : R s t)
    (keep : ∀ s t e, R s t → ok s e → ∃ t', serves t e (step s e).2 t' ∧ R (step s e).1 t') :
    ∃ t', Replays serves t es (outputs step s es) t' ∧ R (after step s es) t' := by
  induction es generalizing s t with
  | nil => exact ⟨t, .nil t, start⟩
  | cons e es ih =>
    rcases keep s t e start run.1 with ⟨t', first, related⟩
    rcases ih run.2 related with ⟨t'', rest, final⟩
    exact ⟨t'', .cons first rest, final⟩

/-- Steps that each use up some of a supply come to an end. -/
theorem Admissible.length_add_le {I : σ → Prop} {f : σ → Nat} (run : Admissible step ok s es)
    (start : I s) (keep : ∀ s e, I s → ok s e → I (step s e).1)
    (uses : ∀ s e, I s → ok s e → f (step s e).1 < f s) :
    es.length + f (after step s es) ≤ f s := by
  induction es generalizing s with
  | nil => exact (Nat.zero_add _).le
  | cons e es ih =>
    have rest := ih run.2 (keep s e start run.1)
    have less := uses s e start run.1
    rw [List.length_cons, after_cons]
    omega

/-! ## What a run costs -/

/-- What the steps of a run cost together. -/
def totalCost (step : σ → ε → σ × ρ) (cost : σ → ε → Nat) : σ → List ε → Nat
  | _, [] => 0
  | s, e :: es => cost s e + totalCost step cost (step s e).1 es

theorem totalCost_mul (k : Nat) (cost : σ → ε → Nat) :
    totalCost step (fun s e => k * cost s e) s es = k * totalCost step cost s es := by
  induction es generalizing s with
  | nil => rfl
  | cons e es ih => rw [totalCost, totalCost, ih, Nat.mul_add]

/-- A run costs no more than its steps pay in, if every step is paid for by that and by what
the potential loses. -/
theorem Admissible.amortized {I : σ → Prop} (cost pay : σ → ε → Nat) (potential : σ → Nat)
    (run : Admissible step ok s es) (start : I s)
    (keep : ∀ s e, I s → ok s e → I (step s e).1)
    (paid : ∀ s e, I s → ok s e → cost s e + potential (step s e).1 ≤ potential s + pay s e) :
    totalCost step cost s es + potential (after step s es) ≤
      potential s + totalCost step pay s es := by
  induction es generalizing s with
  | nil => exact (Nat.zero_add _).le
  | cons e es ih =>
    have rest := ih run.2 (keep s e start run.1)
    have first := paid s e start run.1
    rw [totalCost, after_cons, totalCost]
    omega

/-! ## Runs with some events dropped -/

section

variable (step : σ → ε → σ × ρ) (skip : σ → ε → Prop) [∀ s e, Decidable (skip s e)]

/-- The events of a run that are not skipped. -/
def kept : σ → List ε → List ε
  | _, [] => []
  | s, e :: es => if skip s e then kept (step s e).1 es else e :: kept (step s e).1 es

/-- What these events gave in the run. -/
def keptOutputs : σ → List ε → List ρ
  | _, [] => []
  | s, e :: es =>
      if skip s e then keptOutputs (step s e).1 es
      else (step s e).2 :: keptOutputs (step s e).1 es

end

/-- Skipped events that leave the state alone do not matter to the others. -/
theorem Admissible.drop (skip : σ → ε → Prop) [∀ s e, Decidable (skip s e)]
    (run : Admissible step ok s es) (stutter : ∀ s e, ok s e → skip s e → (step s e).1 = s) :
    after step s (kept step skip s es) = after step s es ∧
      outputs step s (kept step skip s es) = keptOutputs step skip s es := by
  induction es generalizing s with
  | nil => exact ⟨rfl, rfl⟩
  | cons e es ih =>
    rcases ih run.2 with ⟨final, rest⟩
    by_cases skipped : skip s e
    · have same := stutter s e run.1 skipped
      simp only [kept, keptOutputs, if_pos skipped, after_cons]
      rw [same] at final rest ⊢
      exact ⟨final, rest⟩
    · simp only [kept, keptOutputs, if_neg skipped, after_cons, outputs_cons]
      exact ⟨final, congrArg (_ :: ·) rest⟩

/-! ## The largest value so far -/

/-- The largest value of `f` among the states of a run. -/
def peak {α : Type*} [LinearOrder α] (step : σ → ε → σ × ρ) (f : σ → α) : σ → List ε → α
  | s, [] => f s
  | s, e :: es => max (f s) (peak step f (step s e).1 es)

variable {α : Type*} [LinearOrder α] {f : σ → α}

@[simp] theorem peak_nil : peak step f s [] = f s := rfl

@[simp] theorem peak_cons :
    peak step f s (e :: es) = max (f s) (peak step f (step s e).1 es) := rfl

theorem le_peak : f s ≤ peak step f s es := by
  cases es with
  | nil => exact le_refl _
  | cons e es => exact le_max_left _ _

theorem peak_append :
    peak step f s (es ++ es') = max (peak step f s es) (peak step f (after step s es) es') := by
  induction es generalizing s with
  | nil => exact (max_eq_right le_peak).symm
  | cons e es ih => rw [List.cons_append, peak_cons, ih, peak_cons, after_cons, max_assoc]

/-- The invariant rule for a relation of the state to the peak so far. -/
theorem Admissible.peak_invariant {I : σ → α → Prop} (run : Admissible step ok s es)
    (start : I s (f s))
    (keep : ∀ s e p, I s p → ok s e → I (step s e).1 (max p (f (step s e).1))) :
    I (after step s es) (peak step f s es) := by
  -- the peak of the events to come joins the one so far
  have general : ∀ p, f s ≤ p → I s p → I (after step s es) (max p (peak step f s es)) := by
    clear start
    induction es generalizing s with
    | nil =>
      intro p le holds
      rwa [peak_nil, max_eq_left le]
    | cons e es ih =>
      intro p le holds
      have later := ih run.2 (max p (f (step s e).1)) (le_max_right _ _)
        (keep s e p holds run.1)
      have same : max p (peak step f s (e :: es)) =
          max (max p (f (step s e).1)) (peak step f (step s e).1 es) := by
        rw [peak_cons, ← max_assoc, max_eq_left le, max_assoc, max_eq_right le_peak]
      rwa [same]
  have whole := general (f s) (le_refl _) start
  rwa [max_eq_right le_peak] at whole

end TorchTest
