import TorchTest.BlockingQueue.Delivery
import TorchTest.Library.Linearization

/-!
# The queue behaves like a sequential one

Each call of a `BlockingQueue` takes effect at one line that it executes under the
mutex: `push` where it appends, `pop` and a `try_pop` that succeeds where they
remove, `peek` and `try_peek` where they read the front, a failing `try_pop` or
`try_peek` and `size` where they look at the queue. In that order the calls are a run
of a queue that serves one call after the other (`Serves`), with the answers that the
threads get (`linearized_of_run`). `nonblocking_size` may also fail, without effect,
while another thread holds the mutex.
-/

namespace TorchTest.BlockingQueue

variable {τ α : Type}

/-- What a queue that serves one call at a time answers, and its contents after the
call. A waiting function is served when there is an item. -/
inductive Serves : List α → Op α → Answer α → List α → Prop
  | push (q : List α) (v : α) : Serves q (.push v) .done (q ++ [v])
  | take (op : Op α) (v : α) (rest : List α) (takes : op.takes) :
      Serves (v :: rest) op (op.answer v) rest
  | read (op : Op α) (v : α) (rest : List α) (reads : op.reads) (keeps : op.takes = false) :
      Serves (v :: rest) op (op.answer v) (v :: rest)
  | absent (op : Op α) (tries : op.tries) : Serves [] op .notFound []
  | measure (q : List α) (op : Op α) (measures : op.measures) : Serves q op (.size q.length) q
  | busy (q : List α) : Serves q .nonblockingSize .notFound q

/-- The thread that takes the step. -/
def Event.thread : Event τ α → τ
  | .call t _ | .acquire t | .giveUp t | .line t | .notify t _ | .wake t | .leave t => t

namespace Pc

/-- The call that has not taken effect yet. -/
def begun : Pc α → Option (Op α)
  | .entry op | .body op | .front op | .removing op _ => some op
  | .logging => some (.wait .popLog)
  | .waiting w | .woken _ w => some (.wait w)
  | .idle | .notifying _ | .leaving _ _ => none

/-- The call that has taken effect and is about to return its answer. -/
def ended : Pc α → Option (Op α × Answer α)
  | .notifying v => some (.push v, .done)
  | .leaving op r => some (op, r)
  | _ => none

end Pc

namespace State

/-- The call that takes effect in the line that a thread executes, and its answer. -/
def lineEffect (s : State τ α) : Pc α → Option (Op α × Answer α)
  | .body (.push v) => some (.push v, .done)
  | .body op =>
      if op.measures then some (op, .size s.queue.length)
      else if op.tries ∧ s.queue = [] then some (op, .notFound)
      else none
  | .front op => if op.takes then none else s.queue.head?.map fun v => (op, op.answer v)
  | .removing op v => some (op, op.answer v)
  | _ => none

section

variable {s : State τ α} {op : Op α}

/-- A function that reads takes no effect where it finds the queue not empty. -/
theorem lineEffect_of_present (reads : op.reads) (some : s.queue ≠ []) :
    s.lineEffect (.body op) = none := by
  cases op with
  | wait w => rfl
  | tryPop => simp [lineEffect, Op.measures, some]
  | tryPeek => simp [lineEffect, Op.measures, some]
  | _ => cases reads

theorem lineEffect_of_absent (tries : op.tries) (empty : s.queue = []) :
    s.lineEffect (.body op) = some (op, .notFound) := by
  cases op with
  | tryPop => simp [lineEffect, Op.measures, Op.tries, empty]
  | tryPeek => simp [lineEffect, Op.measures, Op.tries, empty]
  | _ => cases tries

theorem lineEffect_of_measures (measures : op.measures) :
    s.lineEffect (.body op) = some (op, .size s.queue.length) := by
  cases op with
  | size => rfl
  | nonblockingSize => rfl
  | _ => cases measures

theorem lineEffect_of_take (takes : op.takes) : s.lineEffect (.front op) = none :=
  if_pos takes

theorem lineEffect_of_read {v : α} {rest : List α} (keeps : op.takes = false)
    (content : s.queue = v :: rest) : s.lineEffect (.front op) = some (op, op.answer v) := by
  simp [lineEffect, keeps, content]

end

variable [DecidableEq τ]

/-- Calls, effects and returns of the monitor. -/
def observer : Observer (State τ α) (Event τ α) τ (Op α) (Answer α) where
  calls _ e :=
    match e with
    | .call t op => [(t, op)]
    | _ => []
  effects s e :=
    match e with
    | .line t => (s.lineEffect (s.pc t)).toList.map (t, ·)
    | .giveUp t => [(t, .nonblockingSize, .notFound)]
    | _ => []
  returns s e := (s.step e).2.toList.map (e.thread, ·)
  begun s t := (s.pc t).begun
  ended s t := (s.pc t).ended

variable {s s' : State τ α} {e : Event τ α} {t : τ}

/-- A thread goes to another line: what that does to its call. -/
theorem moves_of_goto {pc old : Pc α} (pcs : (s.step e).1.pc = Function.update s.pc t pc)
    (at_t : s.pc t = old) (c : List (Op α)) (f r : List (Op α × Answer α))
    (calls : observer.calls s e = c.map (t, ·)) (effects : observer.effects s e = f.map (t, ·))
    (returns : observer.returns s e = r.map (t, ·))
    (begun : old.begun.toList ++ c = f.map Prod.fst ++ pc.begun.toList)
    (ended : old.ended.toList ++ f = r ++ pc.ended.toList) : observer.Moves step s e := by
  have after : (s.step e).1.pc t = pc := by rw [pcs, Function.update_self]
  refine Observer.moves_of_thread t c f r calls effects returns ?_ ?_ fun u other => ?_
  · simp only [observer, at_t, after]
    exact begun
  · simp only [observer, at_t, after]
    exact ended
  · simp [observer, pcs, Function.update_of_ne other]

/-- Every move takes a call of its thread on by what it does. -/
theorem moves_of_move (inv : s.Inv) (move : Move s e s') (stepped : (s.step e).1 = s') :
    observer.Moves step s e := by
  have line : ∀ {pc old : Pc α} {t : τ}, s'.pc = Function.update s.pc t pc → s.pc t = old →
      e = .line t → ∀ f : Option (Op α × Answer α), s.lineEffect old = f →
      old.begun.toList = f.toList.map Prod.fst ++ pc.begun.toList →
      old.ended.toList ++ f.toList = pc.ended.toList → observer.Moves step s e := by
    rintro pc old t pcs at_t rfl f effect begun ended
    refine moves_of_goto (stepped ▸ pcs) at_t [] f.toList [] rfl ?_ rfl
      ((List.append_nil _).trans begun) ended
    simp only [observer, at_t, effect]
  cases move with
  | call t op idle => exact moves_of_goto rfl idle [op] [] [] rfl rfl rfl rfl rfl
  | enter t op entry free =>
    refine moves_of_goto (congrArg State.pc stepped) entry [] [] [] rfl rfl ?_ rfl rfl
    simp [observer, step, entry]
  | reenter t notified w woken free =>
    refine moves_of_goto (congrArg State.pc stepped) woken [] [] [] rfl rfl ?_ rfl rfl
    simp [observer, step, woken]
  | giveUp t entry => exact moves_of_goto rfl entry [] [_] [_] rfl rfl rfl rfl rfl
  | push t v body => exact line rfl body rfl _ rfl rfl rfl
  | sleep t w body empty => exact line rfl body rfl none rfl rfl rfl
  | log t body empty => exact line rfl body rfl none rfl rfl rfl
  | logged t logging => exact line rfl logging rfl none rfl rfl rfl
  | present t op body reads some =>
    exact line rfl body rfl none (lineEffect_of_present reads some) rfl rfl
  | absent t op body tries empty =>
    exact line rfl body rfl _ (lineEffect_of_absent tries empty) rfl rfl
  | measure t op body measures =>
    exact line rfl body rfl _ (lineEffect_of_measures measures) rfl rfl
  | take t op v rest front takes content =>
    exact line rfl front rfl none (lineEffect_of_take takes) rfl rfl
  | read t op v rest front keeps content =>
    exact line rfl front rfl _ (lineEffect_of_read keeps content) rfl rfl
  | remove t op v x rest removing content => exact line rfl removing rfl _ rfl rfl rfl
  | noFront t op front empty =>
    have stage := inv.stages t
    rw [front] at stage
    exact absurd empty stage.2
  | noPop t op v removing empty =>
    have stage := inv.stages t
    rw [removing, StageOk, empty] at stage
    cases stage.2
  | notifyNone t v notifying none =>
    refine moves_of_goto (congrArg State.pc stepped) notifying [] [] [] rfl rfl ?_ rfl rfl
    simp [observer, step, notifying]
  | notifyOne t u v w notifying waiting =>
    have other : t ≠ u := by
      rintro rfl
      rw [notifying] at waiting
      cases waiting
    have pcs : (s.step (.notify t (some u))).1.pc = Function.update
        (Function.update s.pc u (.woken true w)) t (.leaving (.push v) .done) :=
      congrArg State.pc stepped
    refine Observer.moves_of_thread t [] [] [] rfl rfl ?_ ?_ ?_ fun x different => ?_
    · simp [observer, step, notifying, waiting]
    · simp [observer, pcs, notifying, Pc.begun]
    · simp [observer, pcs, notifying, Pc.ended]
    -- the sleeper stays in its call
    · simp only [observer, pcs, Function.update_of_ne different]
      rcases eq_or_ne x u with rfl | third
      · simp [waiting, Pc.begun, Pc.ended]
      · simp [Function.update_of_ne third]
  | wake t w waiting =>
    refine moves_of_goto (congrArg State.pc stepped) waiting [] [] [] rfl rfl ?_ rfl rfl
    simp [observer, step, waiting]
  | leave t op r leaving =>
    refine moves_of_goto (congrArg State.pc stepped) leaving [] [] [(op, r)] rfl rfl ?_ rfl rfl
    simp [observer, step, leaving, Event.thread]

/-- A call takes effect on the queue as a sequential queue would serve it, and nothing
else changes the queue. -/
theorem history_of_move (inv : s.Inv) (move : Move s e s') :
    History Serves s.queue (observer.effects s e) s'.queue := by
  have quiet : ∀ {t : τ}, e = .line t → s.lineEffect (s.pc t) = none → s'.queue = s.queue →
      History Serves s.queue (observer.effects s e) s'.queue := by
    rintro t rfl effect same
    simp only [observer, effect, same]
    exact .nil _
  have served : ∀ {t : τ} {op : Op α} {r : Answer α}, e = .line t →
      s.lineEffect (s.pc t) = some (op, r) → Serves s.queue op r s'.queue →
      History Serves s.queue (observer.effects s e) s'.queue := by
    rintro t op r rfl effect serves
    simp only [observer, effect]
    exact .single t serves
  cases move with
  | push t v body => exact served rfl (by rw [body]; rfl) (.push _ v)
  | sleep t w body empty => exact quiet rfl (by rw [body]; rfl) rfl
  | log t body empty => exact quiet rfl (by rw [body]; rfl) rfl
  | logged t logging => exact quiet rfl (by rw [logging]; rfl) rfl
  | present t op body reads some =>
    exact quiet rfl (body ▸ lineEffect_of_present reads some) rfl
  | absent t op body tries empty =>
    refine served rfl (body ▸ lineEffect_of_absent tries empty) ?_
    change Serves s.queue op .notFound s.queue
    rw [empty]
    exact .absent op tries
  | measure t op body measures =>
    exact served rfl (body ▸ lineEffect_of_measures measures) (.measure s.queue op measures)
  | take t op v rest front takes content =>
    exact quiet rfl (front ▸ lineEffect_of_take takes) rfl
  | read t op v rest front keeps content =>
    have stage := inv.stages t
    rw [front] at stage
    refine served rfl (front ▸ lineEffect_of_read keeps content) ?_
    change Serves s.queue op (op.answer v) s.queue
    rw [content]
    exact .read op v rest stage.1 keeps
  | remove t op v x rest removing content =>
    have stage := inv.stages t
    rw [removing] at stage
    rcases stage with ⟨takes, head⟩
    have same : x = v := by
      rw [content] at head
      exact Option.some.inj head
    have effect : s.lineEffect (s.pc t) = some (op, op.answer v) := by rw [removing]; rfl
    refine served rfl effect ?_
    change Serves s.queue op (op.answer v) rest
    rw [content, same]
    exact .take op v rest takes
  | noFront t op front empty =>
    have stage := inv.stages t
    rw [front] at stage
    exact absurd empty stage.2
  | noPop t op v removing empty =>
    have stage := inv.stages t
    rw [removing, StageOk, empty] at stage
    cases stage.2
  | giveUp t entry => exact .single t (.busy _)
  | _ => exact .nil _

end State

variable [DecidableEq τ]

open State in
/-- For any threads and any interleaving of their calls: the calls, in the order in
which they take effect, are a run of a sequential queue that ends with the items that
are there now, and every call takes effect once, between its beginning and its return,
with the answer that it returns. -/
theorem linearized_of_run {es : List (Event τ α)} (run : Admissible step Enabled init es) :
    History Serves [] (collect step observer.effects init es) (after step init es).queue ∧
      observer.Orderly step init es := by
  have keep : ∀ (s : State τ α) (e : Event τ α), s.Inv → s.Enabled e → (s.step e).1.Inv :=
    fun _ _ inv enabled => inv.step enabled
  constructor
  · have start : (init : State τ α).Inv ∧ (init : State τ α).queue = [] := ⟨inv_init, rfl⟩
    rcases run.history (O := observer) (R := fun s q => s.Inv ∧ s.queue = q) start
      fun s e q ⟨inv, same⟩ enabled =>
        ⟨_, same ▸ history_of_move inv (move_of_enabled enabled), keep s e inv enabled, rfl⟩
      with ⟨q, history, _, same⟩
    rwa [same]
  · exact run.orderly inv_init (fun _ => ⟨rfl, rfl⟩) keep fun s e inv enabled =>
      moves_of_move inv (move_of_enabled enabled) rfl

open State in
/-- A `pop` sleeps, a `try_peek` fails, a `push` wakes the `pop`, but a `try_pop` comes
first and takes the item: the calls take effect in this order, and the `pop` not yet. -/
theorem linearized_of_run_stolen :
    let es : List (Event (Fin 4) Nat) :=
      [.call 0 (.wait .pop), .acquire 0, .line 0, .call 3 .tryPeek, .acquire 3, .line 3, .leave 3,
        .call 1 (.push 7), .call 2 .tryPop, .acquire 1, .line 1, .notify 1 (some 0), .leave 1,
        .acquire 2, .line 2, .line 2, .line 2]
    let h : List (Fin 4 × Op Nat × Answer Nat) :=
      [(3, .tryPeek, .notFound), (1, .push 7, .done), (2, .tryPop, .found 7)]
    History Serves [] h [] ∧ collect step observer.effects init es = h ∧
      ofThread 2 (collect step observer.returns init es) = [] := by
  intro es h
  have effects : collect step observer.effects (init : State (Fin 4) Nat) es = h := by
    decide +kernel
  have run : Admissible step Enabled (init : State (Fin 4) Nat) es := by decide +kernel
  have history := (linearized_of_run run).1
  rw [effects] at history
  exact ⟨history, effects, by decide +kernel⟩

end TorchTest.BlockingQueue
