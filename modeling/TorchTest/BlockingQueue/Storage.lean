import TorchTest.BlockingQueue.Accounts
import TorchTest.Deque.Refinement

/-!
# The queue in its deque

`queue_` is a `std::queue`, and that a `std::deque`. `Stored` is the monitor with this deque
in place of the sequence of items, and its lines make the calls that the source makes:
`push_back`, `front`, `pop_front`, `empty` and `size`. Nothing else than the mutex keeps them
apart.

A `push` may throw, for want of memory or because the copy of the item does, and so may the
copy of the item in front. The exception leaves the member function, and the scoped lock gives
up the mutex. `pop` copies the item, removes it and returns the copy. Where the compiler does
not construct `t` in place of the return value, the return value is constructed from it, and
that may throw too: then the item is gone.

`Serves` is what a step does to the monitor, with these exits beside its own steps. `Stores`
relates the two, and every step keeps it: the deque is never used where it must not be, and
answers as the sequence does (`stored_of_run`).
-/

namespace TorchTest.BlockingQueue

open Deque (ElemType Env Represents)

/-- How a call ends: with an answer, or with an exception and perhaps an item that is gone. -/
inductive Ending (α : Type)
  | returned (op : Op α) (r : Answer α)
  | threw (op : Op α) (gone : Option α)
  deriving DecidableEq, Repr

/-- Whether the function returns a local element, which may be copied once more. -/
def Op.returnsLocal {α : Type} : Op α → Bool
  | .wait .pop | .wait .popLog => true
  | _ => false

/-- The object with its deque, and its threads. -/
structure Stored (τ α : Type) where
  queue_ : Deque α
  owner : Option τ
  pc : τ → Pc α
  fault : Bool

namespace Stored

variable {τ α : Type} [DecidableEq τ] (T : ElemType)

/-- A queue that was just constructed, and no call yet. -/
def init (queue_ : Deque α) : Stored τ α :=
  { queue_, owner := none, pc := fun _ => .idle, fault := false }

/-- The thread is at another line. -/
def goto (c : Stored τ α) (t : τ) (pc : Pc α) : Stored τ α :=
  { c with pc := Function.update c.pc t pc }

/-- `condition_.wait(lock)` up to falling asleep. -/
def sleep (c : Stored τ α) (t : τ) (w : Waiter) : Stored τ α :=
  { c.goto t (.waiting w) with owner := none }

/-- The thread gives up the mutex, and its call ends. -/
def unlock (c : Stored τ α) (t : τ) : Stored τ α := { c.goto t .idle with owner := none }

/-- `queue_.push(v)`. -/
def push (c : Stored τ α) (t : τ) (v : α) (env : Env) : Stored τ α × Option (Ending α) :=
  match c.queue_.pushBack T v env with
  | .ok (queue_, .done) => ({ c.goto t (.notifying v) with queue_ }, none)
  | .ok (queue_, _) => ({ c.unlock t with queue_ }, some (.threw (.push v) none))
  | .error _ => ({ c with fault := true }, none)

/-- A copy of `queue_.front()`. -/
def front (c : Stored τ α) (t : τ) (op : Op α) (env : Env) : Stored τ α × Option (Ending α) :=
  match c.queue_.read c.queue_.front with
  | .ok v =>
      if env.copy = false then (c.unlock t, some (.threw op none))
      else if op.takes then (c.goto t (.removing op v), none)
      else (c.goto t (.leaving op (op.answer v)), none)
  | .error _ => ({ c with fault := true }, none)

/-- `queue_.pop()`, and the return value. -/
def pop (c : Stored τ α) (t : τ) (op : Op α) (v : α) (env : Env) :
    Stored τ α × Option (Ending α) :=
  match c.queue_.popFront T with
  | .ok queue_ =>
      if op.returnsLocal ∧ env.copy = false then
        ({ c.unlock t with queue_ }, some (.threw op (some v)))
      else ({ c.goto t (.leaving op (op.answer v)) with queue_ }, none)
  | .error _ => ({ c with fault := true }, none)

/-- The next line of the thread that holds the mutex. -/
def runLine (c : Stored τ α) (t : τ) (env : Env) : Stored τ α × Option (Ending α) :=
  match c.pc t with
  | .body (.push v) => c.push T t v env
  | .body (.wait w) =>
      if c.queue_.empty then
        if w = .popLog then (c.goto t .logging, none) else (c.sleep t w, none)
      else (c.goto t (.front (.wait w)), none)
  | .body .tryPop =>
      if c.queue_.empty then (c.goto t (.leaving .tryPop .notFound), none)
      else (c.goto t (.front .tryPop), none)
  | .body .tryPeek =>
      if c.queue_.empty then (c.goto t (.leaving .tryPeek .notFound), none)
      else (c.goto t (.front .tryPeek), none)
  | .body .size => (c.goto t (.leaving .size (.size (c.queue_.size T).toNat)), none)
  | .body .nonblockingSize =>
      (c.goto t (.leaving .nonblockingSize (.size (c.queue_.size T).toNat)), none)
  | .logging => (c.sleep t .popLog, none)
  | .front op => c.front t op env
  | .removing op v => c.pop T t op v env
  | _ => (c, none)

/-- One step, with the end of the call that it ends. -/
def step (c : Stored τ α) : Event τ α × Env → Stored τ α × Option (Ending α)
  | (.call t op, _) => (c.goto t (.entry op), none)
  | (.acquire t, _) =>
      match c.pc t with
      | .entry op => ({ c.goto t (.body op) with owner := some t }, none)
      | .woken _ w => ({ c.goto t (.body (.wait w)) with owner := some t }, none)
      | _ => (c, none)
  | (.giveUp t, _) => (c.goto t .idle, some (.returned .nonblockingSize .notFound))
  | (.line t, env) => c.runLine T t env
  | (.notify t woken, _) =>
      match c.pc t, woken with
      | .notifying v, none => (c.goto t (.leaving (.push v) .done), none)
      | .notifying v, some u =>
          match c.pc u with
          | .waiting w => ((c.goto u (.woken true w)).goto t (.leaving (.push v) .done), none)
          | _ => (c, none)
      | _, _ => (c, none)
  | (.wake t, _) =>
      match c.pc t with
      | .waiting w => (c.goto t (.woken false w), none)
      | _ => (c, none)
  | (.leave t, _) =>
      match c.pc t with
      | .leaving op r => (c.unlock t, some (.returned op r))
      | _ => (c, none)

/-- The threads and the mutex. -/
def threads (c : Stored τ α) : State τ α :=
  { queue := [], owner := c.owner, pc := c.pc, pushed := [], removed := [], fault := c.fault }

/-- What the threads may do, and what the system answers. -/
def Allowed (c : Stored τ α) (e : Event τ α × Env) : Prop :=
  c.threads.Enabled e.1 ∧ Deque.NodeFresh T c.queue_ e.2.node

instance [DecidableEq α] [Fintype τ] (c : Stored τ α) (e : Event τ α × Env) :
    Decidable (c.Allowed T e) :=
  inferInstanceAs (Decidable (_ ∧ _))

/-- The end of a call that returns. -/
def returned : Op α × Answer α → Ending α
  | (op, r) => .returned op r

/-- What a step does to the monitor: one of its own steps, or a call ends with an exception,
because memory is refused or because a copy of an item throws, before or after the item is
removed. -/
inductive Serves :
    State τ α → Event τ α × Env → Option (Ending α) → State τ α → Prop
  | ran {s : State τ α} {e : Event τ α} {env : Env} (enabled : s.Enabled e) :
      Serves s (e, env) ((s.step e).2.map returned) (s.step e).1
  | unpushed {s : State τ α} {t : τ} {v : α} {env : Env} (at_t : s.pc t = .body (.push v))
      (refused : env.map = false ∨ env.node = none ∨ env.copy = false) :
      Serves s (.line t, env) (some (.threw (.push v) none)) (s.unlock t)
  | uncopied {s : State τ α} {t : τ} {op : Op α} {env : Env} (at_t : s.pc t = .front op)
      (thrown : env.copy = false) : Serves s (.line t, env) (some (.threw op none)) (s.unlock t)
  | unreturned {s : State τ α} {t : τ} {op : Op α} {v : α} {rest : List α} {env : Env}
      (at_t : s.pc t = .removing op v) (content : s.queue = v :: rest) (copies : op.returnsLocal)
      (thrown : env.copy = false) :
      Serves s (.line t, env) (some (.threw op (some v))) ((s.dequeue t op v v rest).unlock t)

variable {T} {c c' : Stored τ α} {s s' : State τ α} {t : τ} {e : Event τ α} {env : Env}
  {op : Op α}

omit [DecidableEq τ] in
/-- What the threads may do depends on them and the mutex. -/
theorem enabled_congr (pc : s'.pc = s.pc) (owner : s'.owner = s.owner) :
    s'.Enabled e ↔ s.Enabled e := by
  cases e with
  | notify t woken => cases woken <;> simp only [State.Enabled, pc]
  | _ => simp only [State.Enabled, pc, owner]

omit [DecidableEq τ] in
theorem enabled_line {pc : Pc α} (at_t : s.pc t = pc) (line : pc.atLine) :
    s.Enabled (.line t) := by
  rw [State.Enabled, at_t]
  exact line

/-- An exception leaves the monitor sound as well. -/
theorem Serves.inv {e : Event τ α × Env} {r : Option (Ending α)} (serves : Serves s e r s')
    (inv : s.Inv) : s'.Inv := by
  cases serves with
  | ran enabled => exact inv.step enabled
  | unpushed at_t refused => exact inv.released (by rw [at_t]; rfl) rfl
  | uncopied at_t thrown => exact inv.released (by rw [at_t]; rfl) rfl
  | unreturned at_t content _ _ =>
    have removed := inv.move (.remove _ _ _ _ _ at_t content)
    refine removed.released ?_ rfl
    rw [State.dequeue_pc, Function.update_self]
    rfl

/-! ## Who gets the items -/

/-- The item that the call added. -/
def Ending.gives : Ending α → List α
  | .returned op _ => op.gives
  | .threw _ _ => []

/-- The item that the call took: the caller gets it, or it is gone. -/
def Ending.takes : Ending α → List α
  | .returned op r => op.gets r
  | .threw _ gone => gone.toList

/-- What a step gives that ends a call. -/
def givenBy (r : Option (Ending α)) : List α := r.elim [] Ending.gives

/-- What a step takes that ends a call. -/
def takenBy (r : Option (Ending α)) : List α := r.elim [] Ending.takes

/-- Every step keeps the accounts, also one that throws. -/
theorem Serves.accounts {e : Event τ α × Env} {r : Option (Ending α)} {given taken : List α}
    (serves : Serves s e r s') (inv : s.Inv) (accounts : s.Accounts given taken) :
    s'.Accounts (given ++ givenBy r) (taken ++ takenBy r) := by
  cases serves with
  | @ran e env enabled =>
    have moved := accounts.move inv (State.move_of_enabled enabled)
    cases ended : (s.step e).2 with
    | none => rwa [ended] at moved
    | some r => rwa [ended] at moved
  | unpushed at_t refused =>
    exact accounts.stays inv at_t rfl (State.hand_released rfl) rfl rfl rfl rfl
  | uncopied at_t thrown =>
    exact accounts.stays inv at_t rfl (State.hand_released rfl) rfl rfl rfl rfl
  | @unreturned t op v rest env at_t content copies _ =>
    have move : State.Move s (.line t) (s.dequeue t op v v rest) := .remove _ _ _ _ _ at_t content
    have removed : (s.dequeue t op v v rest).Accounts given taken := by
      have moved := accounts.move inv move
      simpa [State.step, gives, gets] using moved
    have at_t' : (s.dequeue t op v v rest).pc t = .leaving op (op.answer v) := by
      rw [State.dequeue_pc, Function.update_self]
    refine removed.inside (inv.move move) at_t' rfl (State.hand_released rfl)
      (List.append_nil _).symm (List.append_nil _).symm ?_ ?_
    · cases op with
      | wait w => rfl
      | _ => cases copies
    · cases op with
      | wait w =>
        cases w with
        | peek => cases copies
        | _ => rfl
      | _ => cases copies

/-- So does every run. -/
theorem accounts_of_replays {es : List (Event τ α × Env)} {rs : List (Option (Ending α))}
    {given taken : List α} (replays : Replays Serves s es rs s') (inv : s.Inv)
    (accounts : s.Accounts given taken) :
    s'.Accounts (given ++ rs.flatMap givenBy) (taken ++ rs.flatMap takenBy) := by
  induction replays generalizing given taken with
  | nil s => simpa using accounts
  | cons first _ ih =>
    have rest := ih (first.inv inv) (first.accounts inv accounts)
    simpa only [List.flatMap_cons, List.append_assoc] using rest

/-! ## The deque and the sequence -/

/-- The deque holds the items of the monitor, and the threads are where they are there. -/
structure Stores (T : ElemType) (c : Stored τ α) (s : State τ α) : Prop where
  items : ∃ xs, Represents T c.queue_ xs ∧ xs.map Prod.snd = s.queue
  owner : c.owner = s.owner
  pc : c.pc = s.pc
  fault : c.fault = s.fault

/-- A step that gives what it gives in the monitor. -/
def Advances (T : ElemType) (c : Stored τ α) (s : State τ α) (e : Event τ α × Env) : Prop :=
  ∃ s', Serves s e (c.step T e).2 s' ∧ Stores T (c.step T e).1 s'

namespace Stores

omit [DecidableEq τ] in
theorem pc_eq (stores : Stores T c s) {pc : Pc α} (at_t : s.pc t = pc) : c.pc t = pc :=
  (congrFun stores.pc t).trans at_t

theorem goto (stores : Stores T c s) (t : τ) (pc : Pc α) :
    Stores T (c.goto t pc) (s.goto t pc) where
  items := stores.items
  owner := stores.owner
  pc := by
    rw [Stored.goto, State.goto, stores.pc]
  fault := stores.fault

theorem sleep (stores : Stores T c s) (t : τ) (w : Waiter) :
    Stores T (c.sleep t w) (s.sleep t w) where
  items := stores.items
  owner := rfl
  pc := (stores.goto t _).pc
  fault := stores.fault

/-- An exception leaves the items as they are, or `queue_` with the same. -/
theorem unlock {queue_ : Deque α} (stores : Stores T c s)
    (items : ∃ xs, Represents T queue_ xs ∧ xs.map Prod.snd = s.queue) (t : τ) :
    Stores T { c.unlock t with queue_ } (s.unlock t) :=
  ⟨items, rfl, (stores.goto t .idle).pc, stores.fault⟩

omit [DecidableEq τ] in
theorem empty_iff (stores : Stores T c s) : c.queue_.empty = true ↔ s.queue = [] := by
  obtain ⟨xs, ⟨L, rep⟩, items⟩ := stores.items
  rw [rep.empty_iff, ← items, List.map_eq_nil_iff]

omit [DecidableEq τ] in
theorem size_eq (stores : Stores T c s) : (c.queue_.size T).toNat = s.queue.length := by
  obtain ⟨xs, ⟨L, rep⟩, items⟩ := stores.items
  rw [rep.size_eq, Int.toNat_natCast, ← items, List.length_map]

/-- A line that runs as in the monitor. -/
theorem ran (stores' : Stores T (c.runLine T t env).1 (s.runLine t))
    (enabled : s.Enabled (.line t)) (quiet : (c.runLine T t env).2 = none) :
    Advances T c s (.line t, env) := by
  refine ⟨s.runLine t, ?_, stores'⟩
  rw [Stored.step, quiet]
  exact .ran enabled

/-- A line that throws, `queue_` being the deque after it. -/
theorem threw {queue_ : Deque α} (stores : Stores T c s)
    (items : ∃ xs, Represents T queue_ xs ∧ xs.map Prod.snd = s.queue)
    (serves : Serves s (.line t, env) (some (.threw op none)) (s.unlock t))
    (done : c.runLine T t env = ({ c.unlock t with queue_ }, some (.threw op none))) :
    Advances T c s (.line t, env) := by
  refine ⟨s.unlock t, ?_, ?_⟩
  · rw [Stored.step, done]
    exact serves
  · rw [Stored.step, done]
    exact stores.unlock items t

/-! ### The lines -/

/-- `queue_.push(t)`. -/
theorem push (stores : Stores T c s) {v : α} (at_t : s.pc t = .body (.push v))
    (fresh : Deque.NodeFresh T c.queue_ env.node) : Advances T c s (.line t, env) := by
  have at_c : c.pc t = .body (.push v) := stores.pc_eq at_t
  have enabled := enabled_line at_t rfl
  obtain ⟨xs, ⟨L, rep⟩, items⟩ := stores.items
  obtain ⟨_, queue_, o, pushed, added, _⟩ := rep.pushBack v fresh
  rcases added with ⟨rfl, _, a, L', _, rep'⟩ | ⟨rep', ⟨rfl, refused⟩ | ⟨rfl, refused⟩⟩
  · have line : s.runLine t =
        { s.goto t (.notifying v) with queue := s.queue ++ [v], pushed := s.pushed ++ [v] } := by
      simp only [State.runLine, at_t]
    have line' : c.runLine T t env = ({ c.goto t (.notifying v) with queue_ }, none) := by
      simp only [Stored.runLine, at_c, Stored.push, pushed]
    refine ran ?_ enabled (congrArg Prod.snd line')
    rw [line, line']
    refine ⟨⟨xs ++ [(a, v)], ⟨L', rep'⟩, ?_⟩, stores.owner, (stores.goto t _).pc, stores.fault⟩
    rw [List.map_append, items]
    rfl
  · refine stores.threw ⟨xs, rep', items⟩ (.unpushed at_t (refused.imp_right .inl)) ?_
    simp only [Stored.runLine, at_c, Stored.push, pushed]
  · refine stores.threw ⟨xs, rep', items⟩ (.unpushed at_t (.inr (.inr refused))) ?_
    simp only [Stored.runLine, at_c, Stored.push, pushed]

omit [DecidableEq τ] in
/-- `queue_.front()`. -/
theorem read_eq (stores : Stores T c s) (inv : s.Inv) (at_t : s.pc t = .front op) :
    ∃ v rest, s.queue = v :: rest ∧ c.queue_.read c.queue_.front = .ok v := by
  have stage := inv.stages t
  rw [at_t] at stage
  obtain ⟨v, rest, content⟩ := List.exists_cons_of_ne_nil stage.2
  obtain ⟨xs, ⟨L, rep⟩, items⟩ := stores.items
  rw [content] at items
  obtain ⟨x, xs', rfl, rfl, _⟩ := List.map_eq_cons_iff.mp items
  exact ⟨x.2, rest, content, by rw [rep.front_eq, rep.read_eq List.mem_cons_self]⟩

/-- The copy of the item in front throws. -/
theorem uncopied (stores : Stores T c s) (inv : s.Inv) (at_t : s.pc t = .front op)
    (thrown : env.copy = false) : c.runLine T t env = (c.unlock t, some (.threw op none)) := by
  have at_c : c.pc t = .front op := stores.pc_eq at_t
  obtain ⟨v, _, _, read⟩ := stores.read_eq inv at_t
  simp only [Stored.runLine, at_c, Stored.front, read, thrown, if_true]

/-- A copy of `queue_.front()`. -/
theorem front (stores : Stores T c s) (inv : s.Inv) (at_t : s.pc t = .front op) :
    Advances T c s (.line t, env) := by
  have at_c : c.pc t = .front op := stores.pc_eq at_t
  have enabled := enabled_line at_t rfl
  obtain ⟨v, rest, content, read⟩ := stores.read_eq inv at_t
  cases copied : env.copy with
  | false =>
    exact stores.threw stores.items (.uncopied at_t copied) (stores.uncopied inv at_t copied)
  | true =>
    cases takes : op.takes with
    | true =>
      refine ran ?_ enabled ?_
      · simp only [Stored.runLine, State.runLine, at_c, at_t, Stored.front, read, content, copied,
          takes, Bool.true_eq_false, if_true, if_false]
        exact stores.goto t _
      · simp only [Stored.runLine, at_c, Stored.front, read, copied, takes, Bool.true_eq_false,
          if_true, if_false]
    | false =>
      refine ran ?_ enabled ?_
      · simp only [Stored.runLine, State.runLine, at_c, at_t, Stored.front, read, content, copied,
          takes, Bool.true_eq_false, Bool.false_eq_true, if_false]
        exact stores.goto t _
      · simp only [Stored.runLine, at_c, Stored.front, read, copied, takes, Bool.true_eq_false,
          Bool.false_eq_true, if_false]

/-- `queue_.pop()`. -/
theorem pop (stores : Stores T c s) (inv : s.Inv) {v : α} (at_t : s.pc t = .removing op v) :
    Advances T c s (.line t, env) := by
  have at_c : c.pc t = .removing op v := stores.pc_eq at_t
  have enabled := enabled_line at_t rfl
  have stage := inv.stages t
  rw [at_t] at stage
  obtain ⟨rest, content⟩ := List.head?_eq_some_iff.mp stage.2
  obtain ⟨xs, ⟨L, rep⟩, items⟩ := stores.items
  rw [content] at items
  obtain ⟨x, xs', rfl, rfl, items'⟩ := List.map_eq_cons_iff.mp items
  obtain ⟨queue_, L', popped, rep', _⟩ := rep.popFront
  by_cases thrown : op.returnsLocal ∧ env.copy = false
  · -- the item is gone
    have line : c.step T (.line t, env) =
        ({ c.unlock t with queue_ }, some (.threw op (some x.2))) := by
      simp only [Stored.step, Stored.runLine, at_c, Stored.pop, popped, if_pos thrown]
    refine ⟨(s.dequeue t op x.2 x.2 rest).unlock t, ?_, ?_⟩
    · rw [line]
      exact .unreturned at_t content thrown.1 thrown.2
    · rw [line]
      refine ⟨⟨xs', ⟨L', rep'⟩, items'⟩, rfl, ?_, stores.fault⟩
      exact (stores.goto t .idle).pc.trans (Function.update_idem ..).symm
  · refine ran ?_ enabled ?_
    · simp only [Stored.runLine, State.runLine, at_c, at_t, content, Stored.pop, popped,
        if_neg thrown]
      exact ⟨⟨xs', ⟨L', rep'⟩, items'⟩, stores.owner, (stores.goto t _).pc, stores.fault⟩
    · simp only [Stored.runLine, at_c, Stored.pop, popped, if_neg thrown]

/-- The test of the queue, by a function that reads it. -/
theorem test (stores : Stores T c s) (at_t : s.pc t = .body op) (reads : op.reads) :
    Advances T c s (.line t, env) := by
  have at_c : c.pc t = .body op := stores.pc_eq at_t
  have enabled := enabled_line at_t rfl
  by_cases none : s.queue = []
  · have none' := stores.empty_iff.mpr none
    cases op with
    | wait w =>
      by_cases log : w = .popLog
      · refine ran ?_ enabled ?_
        · simp only [Stored.runLine, State.runLine, at_c, at_t, none, none', log, if_true]
          exact stores.goto t _
        · simp only [Stored.runLine, at_c, none', log, if_true]
      · refine ran ?_ enabled ?_
        · simp only [Stored.runLine, State.runLine, at_c, at_t, none, none', log, if_true, if_false]
          exact stores.sleep t w
        · simp only [Stored.runLine, at_c, none', log, if_true, if_false]
    | tryPop | tryPeek =>
      refine ran ?_ enabled ?_
      · simp only [Stored.runLine, State.runLine, at_c, at_t, none, none', if_true]
        exact stores.goto t _
      · simp only [Stored.runLine, at_c, none', if_true]
    | _ => cases reads
  · have some := Bool.eq_false_iff.mpr (stores.empty_iff.not.mpr none)
    cases op with
    | wait w | tryPop | tryPeek =>
      refine ran ?_ enabled ?_
      · simp only [Stored.runLine, State.runLine, at_c, at_t, none, some, Bool.false_eq_true,
          if_false]
        exact stores.goto t _
      · simp only [Stored.runLine, at_c, some, Bool.false_eq_true, if_false]
    | _ => cases reads

/-- A line under the lock. -/
theorem line (stores : Stores T c s) (inv : s.Inv) (enabled : s.Enabled (.line t))
    (fresh : Deque.NodeFresh T c.queue_ env.node) : Advances T c s (.line t, env) := by
  cases at_t : s.pc t with
  | body op =>
    have at_c : c.pc t = .body op := stores.pc_eq at_t
    cases op with
    | push v => exact stores.push at_t fresh
    | wait w => exact stores.test at_t rfl
    | tryPop => exact stores.test at_t rfl
    | tryPeek => exact stores.test at_t rfl
    | size | nonblockingSize =>
      refine ran ?_ enabled ?_
      · simp only [Stored.runLine, State.runLine, at_c, at_t, stores.size_eq]
        exact stores.goto t _
      · simp only [Stored.runLine, at_c]
  | logging =>
    have at_c : c.pc t = .logging := stores.pc_eq at_t
    refine ran ?_ enabled ?_
    · simp only [Stored.runLine, State.runLine, at_c, at_t]
      exact stores.sleep t _
    · simp only [Stored.runLine, at_c]
  | front op => exact stores.front inv at_t
  | removing op v => exact stores.pop inv at_t
  | _ => simp [State.Enabled, at_t, Pc.atLine] at enabled

/-! ### The other steps -/

/-- A step that does not touch the queue. -/
theorem aside (enabled : s.Enabled e)
    (same : (c.step T (e, env)).2 = (s.step e).2.map returned ∧
      Stores T (c.step T (e, env)).1 (s.step e).1) : Advances T c s (e, env) := by
  refine ⟨(s.step e).1, ?_, same.2⟩
  rw [same.1]
  exact .ran enabled

theorem advances (stores : Stores T c s) (inv : s.Inv) (enabled : s.Enabled e)
    (fresh : Deque.NodeFresh T c.queue_ env.node) : Advances T c s (e, env) := by
  cases e with
  | line t => exact stores.line inv enabled fresh
  | call t op => exact aside enabled ⟨rfl, stores.goto t _⟩
  | giveUp t => exact aside enabled ⟨rfl, stores.goto t _⟩
  | acquire t =>
    refine aside enabled ?_
    simp only [Stored.step, State.step, stores.pc]
    cases s.pc t with
    | entry op => exact ⟨rfl, stores.items, rfl, (stores.goto t _).pc, stores.fault⟩
    | woken n w => exact ⟨rfl, stores.items, rfl, (stores.goto t _).pc, stores.fault⟩
    | _ => exact ⟨rfl, stores⟩
  | notify t woken =>
    refine aside enabled ?_
    simp only [Stored.step, State.step, stores.pc]
    cases s.pc t with
    | notifying v =>
      rcases woken with _ | u
      · exact ⟨rfl, stores.goto t _⟩
      · cases at_u : s.pc u with
        | waiting w =>
          simp only [at_u]
          exact ⟨rfl, (stores.goto u _).goto t _⟩
        | _ =>
          simp only [at_u]
          exact ⟨rfl, stores⟩
    | _ => exact ⟨rfl, stores⟩
  | wake t =>
    refine aside enabled ?_
    simp only [Stored.step, State.step, stores.pc]
    cases s.pc t with
    | waiting w => exact ⟨rfl, stores.goto t _⟩
    | _ => exact ⟨rfl, stores⟩
  | leave t =>
    refine aside enabled ?_
    simp only [Stored.step, State.step, stores.pc]
    cases s.pc t with
    | leaving op r => exact ⟨rfl, stores.items, rfl, (stores.goto t _).pc, stores.fault⟩
    | _ => exact ⟨rfl, stores⟩

omit [DecidableEq τ] in
/-- A new queue has no items. -/
theorem init {p : Nat} {queue_ : Deque α} (created : Deque.create T p = .ok queue_) :
    Stores T (Stored.init queue_ : Stored τ α) State.init where
  items := ⟨[], Deque.represents_create created, rfl⟩
  owner := rfl
  pc := rfl
  fault := rfl

end Stores

/-- Whatever the threads do, and whatever throws: what the calls end with is what they end with
in the monitor, every item is removed once and in order, and the call that removed it returns it
or ends with it gone, the deque is never used where it must not be and holds the items, and its
destructor leaves neither items nor memory. -/
theorem stored_of_run {p : Nat} {queue_ : Deque α} {es : List (Event τ α × Env)}
    (created : Deque.create T p = .ok queue_)
    (run : Admissible (Stored.step T) (Allowed T) (Stored.init queue_) es) :
    let c := after (Stored.step T) (Stored.init queue_) es
    let rs := outputs (Stored.step T) (Stored.init queue_) es
    ∃ s, Replays Serves State.init es rs s ∧ s.Delivered ∧
      s.Accounts (rs.flatMap givenBy) (rs.flatMap takenBy) ∧ c.fault = false ∧
      (∃ xs, Represents T c.queue_ xs ∧ xs.map Prod.snd = s.queue) ∧
      c.queue_.dtor T = .ok ([], fun _ => none) := by
  intro c rs
  have start : Stores T (Stored.init queue_ : Stored τ α) State.init ∧
      (State.init : State τ α).Inv := ⟨.init created, State.inv_init⟩
  obtain ⟨s, replays, stores, inv⟩ := run.replays
    (R := fun c s => Stores T c s ∧ s.Inv) start fun c s e related allowed => by
      obtain ⟨stores, inv⟩ := related
      have enabled := (enabled_congr stores.pc stores.owner).mp allowed.1
      obtain ⟨s', serves, stores'⟩ := stores.advances inv enabled allowed.2
      exact ⟨s', serves, stores', serves.inv inv⟩
  have accounts := accounts_of_replays replays State.inv_init State.accounts_init
  refine ⟨s, replays, inv.delivered, accounts, stores.fault.trans inv.safe, stores.items, ?_⟩
  obtain ⟨xs, ⟨L, rep⟩, _⟩ := stores.items
  exact rep.dtor

/-- One item a node. A push is refused its node, another one comes, and the copy for a `try_pop`
throws; then a `try_pop` gets the item. The next item is removed by a `pop` that cannot return
it. -/
theorem stored_of_run_thrown :
    let T : ElemType := ⟨512, by decide⟩
    let quiet : Env := ⟨false, none, true⟩
    let thrown : Env := ⟨false, none, false⟩
    let es : List (Event (Fin 2) Nat × Env) :=
      [(.call 0 (.push 6), quiet), (.acquire 0, quiet), (.line 0, quiet),
        (.call 0 (.push 7), quiet), (.acquire 0, quiet), (.line 0, ⟨false, some 8192, true⟩),
        (.notify 0 none, quiet), (.leave 0, quiet), (.call 1 .tryPop, quiet), (.acquire 1, quiet),
        (.line 1, quiet), (.line 1, thrown), (.call 1 .tryPop, quiet), (.acquire 1, quiet),
        (.line 1, quiet), (.line 1, quiet), (.line 1, quiet), (.leave 1, quiet),
        (.call 0 (.push 8), quiet), (.acquire 0, quiet), (.line 0, ⟨false, some 4096, true⟩),
        (.notify 0 none, quiet), (.leave 0, quiet), (.call 1 (.wait .pop), quiet),
        (.acquire 1, quiet), (.line 1, quiet), (.line 1, quiet), (.line 1, thrown)]
    let c := after (Stored.step T) (Stored.init (Deque.initial T 4096)) es
    (outputs (Stored.step T) (Stored.init (Deque.initial T 4096)) es).reduceOption =
        [.threw (.push 6) none, .returned (.push 7) .done, .threw .tryPop none,
          .returned .tryPop (.found 7), .returned (.push 8) .done, .threw (.wait .pop) (some 8)] ∧
      c.fault = false ∧ c.queue_.dtor T = .ok ([], fun _ => none) := by
  intro T quiet thrown es c
  have run : Admissible (Stored.step T) (Allowed T) (Stored.init (Deque.initial T 4096)) es := by
    decide +kernel
  obtain ⟨s, _, _, _, faultless, _, ended⟩ := stored_of_run (Deque.create_eq T 4096) run
  exact ⟨by decide +kernel, faultless, ended⟩

end Stored

end TorchTest.BlockingQueue
