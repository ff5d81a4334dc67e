import Mathlib.Data.List.Basic
import TorchTest.Library.Runs

/-!
# Concurrent objects that behave like sequential ones

Threads make calls on an object, and every event of a run is a step of one of
them. An `Observer` says which events are calls, which are returns, and at which
events a call takes effect. The run is linearized when

* the calls, in the order in which they take effect and with the answers they
  return, are a run of a sequential object (`History`), and
* every call takes effect once, between its beginning and its return
  (`Observer.Orderly`): the calls a thread has made are those that took effect and
  at most one more, and those that took effect are those that returned and at most
  one more.

Both follow from what single events do (`Admissible.history`, `Admissible.orderly`).
As they hold after every part of a run, a call that returned before another began
also took effect before it.
-/

namespace TorchTest

variable {σ ε ρ τ ω β Q : Type*} {step : σ → ε → σ × ρ} {ok : σ → ε → Prop}

/-! ## What is collected along a run -/

/-- What `f` finds at each event of a run, in order. -/
def collect (step : σ → ε → σ × ρ) (f : σ → ε → List β) : σ → List ε → List β
  | _, [] => []
  | s, e :: es => f s e ++ collect step f (step s e).1 es

section

variable {s : σ} {e : ε} {es : List ε} {f : σ → ε → List β}

@[simp] theorem collect_nil : collect step f s [] = [] := rfl

@[simp] theorem collect_cons :
    collect step f s (e :: es) = f s e ++ collect step f (step s e).1 es := rfl

theorem filterMap_collect {γ : Type*} {g : β → Option γ} :
    (collect step f s es).filterMap g = collect step (fun s e => (f s e).filterMap g) s es := by
  induction es generalizing s with
  | nil => rfl
  | cons e es ih => rw [collect_cons, List.filterMap_append, ih, collect_cons]

theorem map_collect {γ : Type*} {g : β → γ} :
    (collect step f s es).map g = collect step (fun s e => (f s e).map g) s es := by
  induction es generalizing s with
  | nil => rfl
  | cons e es ih => rw [collect_cons, List.map_append, ih, collect_cons]

/-- What is pending passes from one collection to another, event by event. -/
theorem Admissible.telescope {I : σ → Prop} {x y : σ → ε → List β} (pending : σ → List β)
    (run : Admissible step ok s es) (start : I s) (keep : ∀ s e, I s → ok s e → I (step s e).1)
    (passes : ∀ s e, I s → ok s e → pending s ++ x s e = y s e ++ pending (step s e).1) :
    pending s ++ collect step x s es = collect step y s es ++ pending (after step s es) := by
  induction es generalizing s with
  | nil => exact List.append_nil _
  | cons e es ih =>
    rw [collect_cons, ← List.append_assoc, passes s e start run.1, List.append_assoc,
      ih run.2 (keep s e start run.1), collect_cons, after_cons, List.append_assoc]

end

/-! ## Sequential histories -/

/-- A sequence of operations with their answers that takes a sequential object from
one state to another. -/
inductive History (serves : Q → ω → β → Q → Prop) : Q → List (τ × ω × β) → Q → Prop
  | nil (q : Q) : History serves q [] q
  | cons {q q' q'' : Q} {op : ω} {r : β} {h : List (τ × ω × β)} (t : τ) (first : serves q op r q')
      (rest : History serves q' h q'') : History serves q ((t, op, r) :: h) q''

variable {serves : Q → ω → β → Q → Prop} {q q' q'' : Q} {h h' : List (τ × ω × β)}

theorem History.single {op : ω} {r : β} (t : τ) (first : serves q op r q') :
    History serves q [(t, op, r)] q' :=
  .cons t first (.nil q')

theorem History.append (first : History serves q h q') (rest : History serves q' h' q'') :
    History serves q (h ++ h') q'' := by
  induction first with
  | nil => exact rest
  | cons t serves _ ih => exact .cons t serves (ih rest)

/-! ## Observers -/

/-- Which events of which threads are calls, effects and returns, and which call of a
thread has not taken effect yet, or has and not returned. -/
structure Observer (σ ε τ ω β : Type*) where
  calls : σ → ε → List (τ × ω)
  effects : σ → ε → List (τ × ω × β)
  returns : σ → ε → List (τ × ω × β)
  begun : σ → τ → Option ω
  ended : σ → τ → Option (ω × β)

variable [DecidableEq τ]

/-- What a list says of one thread. -/
def ofThread {γ : Type*} (t : τ) (l : List (τ × γ)) : List γ :=
  l.filterMap fun x => if x.1 = t then some x.2 else none

@[simp] theorem ofThread_same {γ : Type*} (t : τ) (l : List γ) :
    ofThread t (l.map (t, ·)) = l := by
  simp [ofThread, List.filterMap_map]

theorem ofThread_other {γ : Type*} {t u : τ} (other : t ≠ u) (l : List γ) :
    ofThread t (l.map (u, ·)) = [] := by
  simp [ofThread, other.symm]

namespace Observer

variable (O : Observer σ ε τ ω β) {s : σ} {es : List ε}

/-- In the run `es` from `s`, every call takes effect once, between its beginning and
its return. -/
structure Orderly (step : σ → ε → σ × ρ) (s : σ) (es : List ε) : Prop where
  begun : ∀ t, ofThread t (collect step O.calls s es) =
    (ofThread t (collect step O.effects s es)).map Prod.fst ++
      (O.begun (after step s es) t).toList
  ended : ∀ t, ofThread t (collect step O.effects s es) =
    ofThread t (collect step O.returns s es) ++ (O.ended (after step s es) t).toList

/-- The event `e` moves calls on as it should. -/
structure Moves (step : σ → ε → σ × ρ) (s : σ) (e : ε) : Prop where
  begun : ∀ t, (O.begun s t).toList ++ ofThread t (O.calls s e) =
    (ofThread t (O.effects s e)).map Prod.fst ++ (O.begun (step s e).1 t).toList
  ended : ∀ t, (O.ended s t).toList ++ ofThread t (O.effects s e) =
    ofThread t (O.returns s e) ++ (O.ended (step s e).1 t).toList

/-- An event of the thread `t` moves its calls on as it should, and those of no other
thread. -/
theorem moves_of_thread {O : Observer σ ε τ ω β} {e : ε} (t : τ) (c : List ω) (f r : List (ω × β))
    (calls : O.calls s e = c.map (t, ·)) (effects : O.effects s e = f.map (t, ·))
    (returns : O.returns s e = r.map (t, ·))
    (begun : (O.begun s t).toList ++ c = f.map Prod.fst ++ (O.begun (step s e).1 t).toList)
    (ended : (O.ended s t).toList ++ f = r ++ (O.ended (step s e).1 t).toList)
    (others : ∀ u, u ≠ t →
      O.begun (step s e).1 u = O.begun s u ∧ O.ended (step s e).1 u = O.ended s u) :
    O.Moves step s e where
  begun u := by
    rw [calls, effects]
    rcases eq_or_ne u t with rfl | other
    · rw [ofThread_same, ofThread_same, begun]
    · rw [ofThread_other other, ofThread_other other, (others u other).1]
      exact List.append_nil _
  ended u := by
    rw [effects, returns]
    rcases eq_or_ne u t with rfl | other
    · rw [ofThread_same, ofThread_same, ended]
    · rw [ofThread_other other, ofThread_other other, (others u other).2]
      exact List.append_nil _

end Observer

variable {O : Observer σ ε τ ω β} {s : σ} {es : List ε}

/-- Calls take effect once and in time if every event moves them on as it should. -/
theorem Admissible.orderly {I : σ → Prop} (run : Admissible step ok s es) (start : I s)
    (idle : ∀ t, O.begun s t = none ∧ O.ended s t = none)
    (keep : ∀ s e, I s → ok s e → I (step s e).1)
    (moves : ∀ s e, I s → ok s e → O.Moves step s e) : O.Orderly step s es where
  begun t := by
    have passed := run.telescope (fun s => (O.begun s t).toList) start keep
      fun s e inv ok => (moves s e inv ok).begun t
    rw [(idle t).1, Option.toList_none, List.nil_append] at passed
    simp only [ofThread, filterMap_collect, map_collect]
    exact passed
  ended t := by
    have passed := run.telescope (fun s => (O.ended s t).toList) start keep
      fun s e inv ok => (moves s e inv ok).ended t
    rw [(idle t).2, Option.toList_none, List.nil_append] at passed
    simp only [ofThread, filterMap_collect]
    exact passed

omit [DecidableEq τ] in
/-- The effects of a run are a sequential history if those of every event are. -/
theorem Admissible.history {R : σ → Q → Prop} (run : Admissible step ok s es) (start : R s q)
    (keep : ∀ s e q, R s q → ok s e → ∃ q', History serves q (O.effects s e) q' ∧
      R (step s e).1 q') :
    ∃ q', History serves q (collect step O.effects s es) q' ∧ R (after step s es) q' := by
  induction es generalizing s q with
  | nil => exact ⟨q, .nil q, start⟩
  | cons e es ih =>
    rcases keep s e q start run.1 with ⟨q', first, related⟩
    rcases ih run.2 related with ⟨q'', rest, final⟩
    exact ⟨q'', first.append rest, final⟩

end TorchTest
