import TorchTest.BlockingQueue.Monitor

/-!
# What one step can do

`Move s e s'` has one constructor for every way in which an enabled event can
take the monitor from `s` to `s'`, with the guards under which it does
(`move_of_enabled`). The invariants of the queue are proved by cases on it and
never unfold `step`.
-/

namespace TorchTest.BlockingQueue

variable {τ α : Type} [DecidableEq τ]

namespace State

/-- The thread takes the mutex and starts at the first line of its function. -/
def lock (s : State τ α) (t : τ) (op : Op α) : State τ α :=
  { s.goto t (.body op) with owner := some t }

/-- The thread gives up the mutex and returns. -/
def unlock (s : State τ α) (t : τ) : State τ α := { s.goto t .idle with owner := none }

/-- `queue_.push(v)`. -/
def enqueue (s : State τ α) (t : τ) (v : α) : State τ α :=
  { s.goto t (.notifying v) with queue := s.queue ++ [v], pushed := s.pushed ++ [v] }

/-- `queue_.pop()`, the element at the front being `x`. -/
def dequeue (s : State τ α) (t : τ) (op : Op α) (v x : α) (rest : List α) : State τ α :=
  { s.goto t (.leaving op (op.answer v)) with queue := rest, removed := s.removed ++ [x] }

theorem dequeue_pc (s : State τ α) (t : τ) (op : Op α) (v x : α) (rest : List α) :
    (s.dequeue t op v x rest).pc = Function.update s.pc t (.leaving op (op.answer v)) := rfl

/-- The steps of the monitor, case by case. -/
inductive Move (s : State τ α) : Event τ α → State τ α → Prop
  | call (t : τ) (op : Op α) : s.pc t = .idle → Move s (.call t op) (s.goto t (.entry op))
  | enter (t : τ) (op : Op α) : s.pc t = .entry op → s.owner = none →
      Move s (.acquire t) (s.lock t op)
  | reenter (t : τ) (notified : Bool) (w : Waiter) : s.pc t = .woken notified w →
      s.owner = none → Move s (.acquire t) (s.lock t (.wait w))
  | giveUp (t : τ) : s.pc t = .entry .nonblockingSize → Move s (.giveUp t) (s.goto t .idle)
  | push (t : τ) (v : α) : s.pc t = .body (.push v) → Move s (.line t) (s.enqueue t v)
  | sleep (t : τ) (w : Waiter) : s.pc t = .body (.wait w) → s.queue = [] →
      Move s (.line t) (s.sleep t w)
  | log (t : τ) : s.pc t = .body (.wait .popLog) → s.queue = [] →
      Move s (.line t) (s.goto t .logging)
  | logged (t : τ) : s.pc t = .logging → Move s (.line t) (s.sleep t .popLog)
  | present (t : τ) (op : Op α) : s.pc t = .body op → op.reads → s.queue ≠ [] →
      Move s (.line t) (s.goto t (.front op))
  | absent (t : τ) (op : Op α) : s.pc t = .body op → op.tries → s.queue = [] →
      Move s (.line t) (s.goto t (.leaving op .notFound))
  | measure (t : τ) (op : Op α) : s.pc t = .body op → op.measures →
      Move s (.line t) (s.goto t (.leaving op (.size s.queue.length)))
  | take (t : τ) (op : Op α) (v : α) (rest : List α) : s.pc t = .front op → op.takes →
      s.queue = v :: rest → Move s (.line t) (s.goto t (.removing op v))
  | read (t : τ) (op : Op α) (v : α) (rest : List α) : s.pc t = .front op → op.takes = false →
      s.queue = v :: rest → Move s (.line t) (s.goto t (.leaving op (op.answer v)))
  | remove (t : τ) (op : Op α) (v x : α) (rest : List α) : s.pc t = .removing op v →
      s.queue = x :: rest → Move s (.line t) (s.dequeue t op v x rest)
  | noFront (t : τ) (op : Op α) : s.pc t = .front op → s.queue = [] →
      Move s (.line t) { s with fault := true }
  | noPop (t : τ) (op : Op α) (v : α) : s.pc t = .removing op v → s.queue = [] →
      Move s (.line t) { s with fault := true }
  | notifyNone (t : τ) (v : α) : s.pc t = .notifying v → (∀ u, (s.pc u).asleep = false) →
      Move s (.notify t none) (s.goto t (.leaving (.push v) .done))
  | notifyOne (t u : τ) (v : α) (w : Waiter) : s.pc t = .notifying v → s.pc u = .waiting w →
      Move s (.notify t (some u)) ((s.goto u (.woken true w)).goto t (.leaving (.push v) .done))
  | wake (t : τ) (w : Waiter) : s.pc t = .waiting w →
      Move s (.wake t) (s.goto t (.woken false w))
  | leave (t : τ) (op : Op α) (r : Answer α) : s.pc t = .leaving op r →
      Move s (.leave t) (s.unlock t)

variable {s : State τ α} {e : Event τ α} {t : τ}

/-- A line under the lock, case by case. -/
theorem move_of_atLine (line : (s.pc t).atLine) : Move s (.line t) (s.runLine t) := by
  cases at_t : s.pc t with
  | body op =>
    cases op with
    | push v =>
      simp only [runLine, at_t]
      exact .push t v at_t
    | wait w =>
      by_cases empty : s.queue = []
      · by_cases log : w = .popLog
        · subst log
          simp only [runLine, at_t, if_pos empty, if_true]
          exact .log t at_t empty
        · simp only [runLine, at_t, if_pos empty, if_neg log]
          exact .sleep t w at_t empty
      · simp only [runLine, at_t, if_neg empty]
        exact .present t _ at_t rfl empty
    | tryPop =>
      by_cases empty : s.queue = []
      · simp only [runLine, at_t, if_pos empty]
        exact .absent t _ at_t rfl empty
      · simp only [runLine, at_t, if_neg empty]
        exact .present t _ at_t rfl empty
    | tryPeek =>
      by_cases empty : s.queue = []
      · simp only [runLine, at_t, if_pos empty]
        exact .absent t _ at_t rfl empty
      · simp only [runLine, at_t, if_neg empty]
        exact .present t _ at_t rfl empty
    | size =>
      simp only [runLine, at_t]
      exact .measure t _ at_t rfl
    | nonblockingSize =>
      simp only [runLine, at_t]
      exact .measure t _ at_t rfl
  | logging =>
    simp only [runLine, at_t]
    exact .logged t at_t
  | front op =>
    cases content : s.queue with
    | nil =>
      have moved : s.runLine t = { s with fault := true } := by simp only [runLine, at_t, content]
      rw [moved]
      exact .noFront t op at_t content
    | cons v rest =>
      by_cases takes : op.takes
      · simp only [runLine, at_t, content, takes, if_true]
        exact .take t op v rest at_t takes content
      · simp only [runLine, at_t, content, takes]
        exact .read t op v rest at_t (Bool.eq_false_iff.mpr takes) content
  | removing op v =>
    cases content : s.queue with
    | nil =>
      have moved : s.runLine t = { s with fault := true } := by simp only [runLine, at_t, content]
      rw [moved]
      exact .noPop t op v at_t content
    | cons x rest =>
      simp only [runLine, at_t, content]
      exact .remove t op v x rest at_t content
  | _ => simp [at_t, Pc.atLine] at line

/-- Every enabled event is one of the moves. -/
theorem move_of_enabled (enabled : s.Enabled e) : Move s e (s.step e).1 := by
  cases e with
  | call t op => exact .call t op enabled
  | acquire t =>
    rcases enabled with ⟨wants, free⟩
    cases at_t : s.pc t with
    | entry op =>
      simp only [step, at_t]
      exact .enter t op at_t free
    | woken notified w =>
      simp only [step, at_t]
      exact .reenter t notified w at_t free
    | _ => simp [at_t, Pc.wantsMutex] at wants
  | giveUp t => exact .giveUp t enabled.1
  | line t => exact move_of_atLine enabled
  | notify t woken =>
    cases woken with
    | none =>
      rcases enabled with ⟨notifies, none⟩
      cases at_t : s.pc t with
      | notifying v =>
        simp only [step, at_t]
        exact .notifyNone t v at_t none
      | _ => simp [at_t, Pc.atNotify] at notifies
    | some u =>
      rcases enabled with ⟨notifies, sleeps⟩
      cases at_t : s.pc t with
      | notifying v =>
        cases at_u : s.pc u with
        | waiting w =>
          simp only [step, at_t, at_u]
          exact .notifyOne t u v w at_t at_u
        | _ => simp [at_u, Pc.asleep] at sleeps
      | _ => simp [at_t, Pc.atNotify] at notifies
  | wake t =>
    cases at_t : s.pc t with
    | waiting w =>
      simp only [step, at_t]
      exact .wake t w at_t
    | _ => simp [State.Enabled, at_t, Pc.asleep] at enabled
  | leave t =>
    cases at_t : s.pc t with
    | leaving op r =>
      simp only [step, at_t]
      exact .leave t op r at_t
    | _ => simp [State.Enabled, at_t, Pc.atReturn] at enabled

end State

end TorchTest.BlockingQueue
