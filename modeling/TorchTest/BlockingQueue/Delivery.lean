import TorchTest.BlockingQueue.Moves

/-!
# Every item once and in order

`Inv` says that the mutex is held by the one thread inside, that what was
removed and what is queued are together what was pushed, and, for a thread
inside, what its line may rely on (`StageOk`): that the queue it tested is still
not empty, that the element it copied is still in front, that the answer it is
about to return is right. Nobody else is inside, so nothing of this goes stale.

`delivered_of_run` reads the guarantees off for every interleaving.
-/

namespace TorchTest.BlockingQueue

variable {τ α : Type}

namespace State

/-- The answer is right at this moment: a pushed element is the last one pushed, a removed
element the last one removed, an element only read is the oldest one not yet removed, and
`false` means that all elements pushed have been removed. -/
def Told (s : State τ α) : Op α → Answer α → Prop
  | .push v, .done => s.pushed.getLast? = some v
  | .wait .pop, .value v | .wait .popLog, .value v | .tryPop, .found v =>
      s.removed.getLast? = some v
  | .wait .peek, .value v | .tryPeek, .found v => s.pushed[s.removed.length]? = some v
  | .tryPop, .notFound | .tryPeek, .notFound => s.removed = s.pushed
  | .size, .size n | .nonblockingSize, .size n => s.removed.length + n = s.pushed.length
  | _, _ => False

/-- What the line a thread is at relies on. -/
def StageOk (s : State τ α) : Pc α → Prop
  | .notifying v => s.pushed.getLast? = some v
  | .logging => s.queue = []
  | .front op => op.reads ∧ s.queue ≠ []
  | .removing op v => op.takes ∧ s.queue.head? = some v
  | .leaving op r => s.Told op r
  | _ => True

/-- The monitor is sound: one thread inside, nothing lost, and every thread at a
line it may be at. -/
structure Inv (s : State τ α) : Prop where
  mutex : ∀ t, (s.pc t).inside = true ↔ s.owner = some t
  order : s.removed ++ s.queue = s.pushed
  safe : s.fault = false
  stages : ∀ t, s.StageOk (s.pc t)

variable {s s' : State τ α} {t u : τ} {op : Op α}

/-- A thread outside relies on nothing. -/
theorem stageOk_of_outside {pc : Pc α} (outside : pc.inside = false) : s.StageOk pc := by
  cases pc with
  | notifying v => cases outside
  | logging => cases outside
  | front op => cases outside
  | removing op v => cases outside
  | leaving op r => cases outside
  | _ => exact True.intro

/-- What a line relies on is the queue and its record. -/
theorem StageOk.congr {pc : Pc α} (stage : s.StageOk pc) (queue : s'.queue = s.queue)
    (pushed : s'.pushed = s.pushed) (removed : s'.removed = s.removed) : s'.StageOk pc := by
  have told : ∀ op r, s.Told op r → s'.Told op r := by
    intro op r told
    unfold Told at told ⊢
    rwa [pushed, removed]
  cases pc with
  | notifying v => exact (congrArg List.getLast? pushed).trans stage
  | logging => exact queue.trans stage
  | front op => exact ⟨stage.1, queue ▸ stage.2⟩
  | removing op v => exact ⟨stage.1, queue ▸ stage.2⟩
  | leaving op r => exact told op r stage
  | _ => exact True.intro

/-- Before the removal, the element in front is the oldest not yet removed. -/
theorem Inv.oldest (inv : s.Inv) {v : α} {rest : List α} (front : s.queue = v :: rest) :
    s.pushed[s.removed.length]? = some v := by
  rw [← inv.order, front, List.getElem?_append_right (le_refl _), Nat.sub_self,
    List.getElem?_cons_zero]

/-- The queue is empty when all elements pushed have been removed. -/
theorem Inv.empty_iff (inv : s.Inv) : s.queue = [] ↔ s.removed = s.pushed := by
  rw [← inv.order, List.self_eq_append_right]

theorem Inv.owner_eq (inv : s.Inv) (inside : (s.pc t).inside = true) : s.owner = some t :=
  (inv.mutex t).mp inside

/-- Nobody but the owner of the mutex is inside. -/
theorem Inv.outside (inv : s.Inv) (owner : s.owner = some t) (other : u ≠ t) :
    (s.pc u).inside = false := by
  rw [Bool.eq_false_iff, ne_eq, inv.mutex, owner, Option.some.injEq]
  exact other.symm

/-- What a function that removes tells, once it has removed. -/
theorem told_of_takes {v : α} (takes : op.takes) (last : s.removed.getLast? = some v) :
    s.Told op (op.answer v) := by
  cases op with
  | wait w =>
    cases w with
    | peek => cases takes
    | _ => exact last
  | tryPop => exact last
  | _ => cases takes

/-- What a function that only reads tells. -/
theorem told_of_reads {v : α} (reads : op.reads) (keeps : op.takes = false)
    (oldest : s.pushed[s.removed.length]? = some v) : s.Told op (op.answer v) := by
  cases op with
  | wait w =>
    cases w with
    | peek => exact oldest
    | _ => cases keeps
  | tryPeek => exact oldest
  | tryPop => cases keeps
  | _ => cases reads

theorem inv_init : (init : State τ α).Inv where
  mutex t := by simp [init, Pc.inside]
  order := rfl
  safe := rfl
  stages _ := True.intro

variable [DecidableEq τ]

/-- One thread moves to another line, with the owner of the mutex after it. -/
theorem Inv.moved (inv : s.Inv) {pc : Pc α} (pcs : s'.pc = Function.update s.pc t pc)
    (order : s'.removed ++ s'.queue = s'.pushed) (fault : s'.fault = s.fault)
    (own : pc.inside = true ↔ s'.owner = some t)
    (owners : ∀ u, u ≠ t → (s.owner = some u ↔ s'.owner = some u)) (stage : s'.StageOk pc)
    (stages : ∀ u, u ≠ t → s.StageOk (s.pc u) → s'.StageOk (s.pc u)) : s'.Inv where
  mutex u := by
    rw [pcs]
    rcases eq_or_ne u t with rfl | other
    · rwa [Function.update_self]
    · rw [Function.update_of_ne other]
      exact (inv.mutex u).trans (owners u other)
  order := order
  safe := fault.trans inv.safe
  stages u := by
    rw [pcs]
    rcases eq_or_ne u t with rfl | other
    · rwa [Function.update_self]
    · rw [Function.update_of_ne other]
      exact stages u other (inv.stages u)

/-- A thread moves on without taking or giving up the mutex. -/
theorem Inv.goto (inv : s.Inv) {pc : Pc α} (same : pc.inside = (s.pc t).inside)
    (stage : s.StageOk pc) : (s.goto t pc).Inv :=
  inv.moved rfl inv.order rfl (by rw [same]; exact inv.mutex t) (fun _ _ => Iff.rfl)
    (stage.congr rfl rfl rfl) fun _ _ old => old.congr rfl rfl rfl

/-- A thread takes the free mutex. -/
theorem Inv.lock (inv : s.Inv) (free : s.owner = none) : (s.lock t op).Inv :=
  inv.moved rfl inv.order rfl (iff_of_true rfl rfl)
    (fun u other => by simp [State.lock, free, other.symm]) True.intro
    fun _ _ old => old.congr rfl rfl rfl

/-- The owner of the mutex gives it up. -/
theorem Inv.released (inv : s.Inv) {pc : Pc α} (inside : (s.pc t).inside = true)
    (outside : pc.inside = false) : ({ s.goto t pc with owner := none } : State τ α).Inv :=
  inv.moved rfl inv.order rfl (by simp [outside])
    (fun u other => by simp [inv.owner_eq inside, other.symm])
    (stageOk_of_outside outside) fun _ _ old => old.congr rfl rfl rfl

/-- The owner of the mutex changes the queue; nobody else is there to notice. -/
theorem Inv.changed (inv : s.Inv) {pc : Pc α} {queue pushed removed : List α}
    (inside : (s.pc t).inside = true) (after : pc.inside = true)
    (order : removed ++ queue = pushed)
    (stage : ({ s.goto t pc with queue, pushed, removed } : State τ α).StageOk pc) :
    ({ s.goto t pc with queue, pushed, removed } : State τ α).Inv :=
  inv.moved rfl order rfl (iff_of_true after (inv.owner_eq inside)) (fun _ _ => Iff.rfl) stage
    fun _ other _ => stageOk_of_outside (inv.outside (inv.owner_eq inside) other)

/-- Every move keeps the monitor sound; `front()` and `pop()` never fault. -/
theorem Inv.move {e : Event τ α} (inv : s.Inv) (move : Move s e s') : s'.Inv := by
  cases move with
  | call t op idle => exact inv.goto (by rw [idle]; rfl) True.intro
  | enter t op entry free => exact inv.lock free
  | reenter t notified w woken free => exact inv.lock free
  | giveUp t entry => exact inv.goto (by rw [entry]; rfl) True.intro
  | push t v body =>
    refine inv.changed (by rw [body]; rfl) rfl ?_ List.getLast?_concat
    change s.removed ++ (s.queue ++ [v]) = s.pushed ++ [v]
    rw [← List.append_assoc, inv.order]
  | sleep t w body empty => exact inv.released (by rw [body]; rfl) rfl
  | log t body empty => exact inv.goto (by rw [body]; rfl) empty
  | logged t logging => exact inv.released (by rw [logging]; rfl) rfl
  | present t op body reads some => exact inv.goto (by rw [body]; rfl) ⟨reads, some⟩
  | absent t op body tries empty =>
    apply inv.goto (by rw [body]; rfl)
    have all := inv.empty_iff.mp empty
    cases op with
    | tryPop => exact all
    | tryPeek => exact all
    | _ => cases tries
  | measure t op body measures =>
    apply inv.goto (by rw [body]; rfl)
    have sizes : s.removed.length + s.queue.length = s.pushed.length := by
      rw [← inv.order, List.length_append]
    cases op with
    | size => exact sizes
    | nonblockingSize => exact sizes
    | _ => cases measures
  | take t op v rest front takes content =>
    exact inv.goto (by rw [front]; rfl) ⟨takes, by rw [content]; rfl⟩
  | read t op v rest front keeps content =>
    have stage := inv.stages t
    rw [front] at stage
    exact inv.goto (by rw [front]; rfl) (told_of_reads stage.1 keeps (inv.oldest content))
  | remove t op v x rest removing content =>
    have stage := inv.stages t
    rw [removing] at stage
    obtain ⟨takes, head⟩ := stage
    -- the copy taken before is the element removed now
    have same : x = v := by
      rw [content] at head
      exact Option.some.inj head
    refine inv.changed (by rw [removing]; rfl) rfl ?_ (told_of_takes takes ?_)
    · change s.removed ++ [x] ++ rest = s.pushed
      rw [List.append_assoc, List.singleton_append, ← content, inv.order]
    · simp [same]
  | noFront t op front empty =>
    have stage := inv.stages t
    rw [front] at stage
    exact absurd empty stage.2
  | noPop t op v removing empty =>
    have stage := inv.stages t
    rw [removing] at stage
    have head := stage.2
    rw [empty] at head
    cases head
  | notifyNone t v notifying none =>
    have stage := inv.stages t
    rw [notifying] at stage
    exact inv.goto (by rw [notifying]; rfl) stage
  | notifyOne t u v w notifying waiting =>
    have other : t ≠ u := by
      rintro rfl
      rw [notifying] at waiting
      cases waiting
    have woken : (s.goto u (.woken true w)).Inv := inv.goto (by rw [waiting]; rfl) True.intro
    have stage := inv.stages t
    rw [notifying] at stage
    refine woken.goto ?_ stage
    simp only [State.goto, Function.update_of_ne other, notifying]
    rfl
  | wake t w waiting => exact inv.goto (by rw [waiting]; rfl) True.intro
  | leave t op r leaving => exact inv.released (by rw [leaving]; rfl) rfl

theorem Inv.step {e : Event τ α} (inv : s.Inv) (enabled : s.Enabled e) : (s.step e).1.Inv :=
  inv.move (move_of_enabled enabled)

/-- What the queue promises at every moment. -/
structure Delivered (s : State τ α) : Prop where
  /-- removed and queued values are the pushed ones, in order -/
  order : s.removed ++ s.queue = s.pushed
  /-- `front()` and `pop()` are not executed on an empty queue -/
  safe : s.fault = false
  /-- an answer about to be returned is right -/
  told : ∀ t op r, s.pc t = .leaving op r → s.Told op r
  /-- `try_pop` and `try_peek` return `false` exactly when everything is removed -/
  tried : ∀ t op, s.pc t = .body op → op.tries →
    ((s.step (.line t)).1.pc t = .leaving op .notFound ↔ s.removed = s.pushed)

/-- The test of `try_pop` and `try_peek`. -/
theorem Inv.tried (inv : s.Inv) (body : s.pc t = .body op) (tries : op.tries) :
    (s.step (.line t)).1.pc t = .leaving op .notFound ↔ s.removed = s.pushed := by
  rw [← inv.empty_iff]
  cases op with
  | tryPop => by_cases empty : s.queue = [] <;> simp [State.step, runLine, body, empty, State.goto]
  | tryPeek => by_cases empty : s.queue = [] <;> simp [State.step, runLine, body, empty, State.goto]
  | _ => cases tries

theorem Inv.delivered (inv : s.Inv) : s.Delivered where
  order := inv.order
  safe := inv.safe
  told t op r leaving := by
    have stage := inv.stages t
    rwa [leaving] at stage
  tried _ _ := inv.tried

end State

variable [DecidableEq τ]

open State in
/-- For any threads and any interleaving of their calls, the queue delivers every
item once and in order. -/
theorem delivered_of_run {es : List (Event τ α)} (run : Admissible step Enabled init es) :
    (after step init es).Delivered :=
  (run.invariant inv_init fun _ _ inv enabled => inv.step enabled).delivered

open State in
/-- A sleeping `pop` woken by a push, and the item taken by a `try_pop` before it
gets the mutex. -/
theorem delivered_of_run_stolen :
    (after step (init : State (Fin 3) Nat)
      [.call 0 (.wait .pop), .acquire 0, .line 0, .call 1 (.push 7), .call 2 .tryPop, .acquire 1,
        .line 1, .notify 1 (some 0), .leave 1, .acquire 2, .line 2, .line 2, .line 2, .leave 2,
        .acquire 0, .line 0]).Delivered :=
  delivered_of_run (by decide +kernel)

end TorchTest.BlockingQueue
