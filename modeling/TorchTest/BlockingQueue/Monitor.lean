import Mathlib.Data.Fintype.Basic
import Mathlib.Logic.Function.Basic
import TorchTest.Library.Runs

/-!
# `BlockingQueue`, line by line

`c++/demo/blocking_queue.cpp` as a monitor: any number of threads, each at one
line of one member function (`Pc`), one mutex and one condition variable. An
`Event` is one thread taking one step; the interleaving is free.

* a scoped lock is taken in `acquire` and given up in `leave`;
* `condition_.wait` gives up the mutex and sleeps (`Pc.waiting`); a sleeper is
  woken by `notify_one` or for no reason (`wake`), and has to take the mutex
  again before it tests the queue again;
* `notify_one` wakes one sleeper if there is one.

`pushed` and `removed` record what went in and came out of `queue_`, and `fault`
that `front()` or `pop()` was executed on an empty queue. The line that logs
every ten-thousandth wait is a step that changes nothing.
-/

namespace TorchTest.BlockingQueue

/-- The member functions that wait: `pop()`, `pop(log_on_wait)` and `peek()`. -/
inductive Waiter
  | pop
  | popLog
  | peek
  deriving DecidableEq, Repr

/-- The member functions. -/
inductive Op (α : Type)
  | push (v : α)
  | wait (w : Waiter)
  | tryPop
  | tryPeek
  | size
  | nonblockingSize
  deriving DecidableEq, Repr

/-- Whether the function removes the element that it reads. -/
def Op.takes {α : Type} : Op α → Bool
  | .wait .pop | .wait .popLog | .tryPop => true
  | _ => false

/-- What a function returns: nothing, an element, `true` with an element stored,
`false`, or a size. -/
inductive Answer (α : Type)
  | done
  | value (v : α)
  | found (v : α)
  | notFound
  | size (n : Nat)
  deriving DecidableEq, Repr

/-- Whether the function reads the front of the queue. -/
def Op.reads {α : Type} : Op α → Bool
  | .wait _ | .tryPop | .tryPeek => true
  | _ => false

/-- Whether the function returns `false` on an empty queue. -/
def Op.tries {α : Type} : Op α → Bool
  | .tryPop | .tryPeek => true
  | _ => false

/-- Whether the function returns the size of the queue. -/
def Op.measures {α : Type} : Op α → Bool
  | .size | .nonblockingSize => true
  | _ => false

/-- How a function returns the element that it read. -/
def Op.answer {α : Type} : Op α → α → Answer α
  | .tryPop, v | .tryPeek, v => .found v
  | _, v => .value v

/-- Where a thread is. -/
inductive Pc (α : Type)
  | idle
  /-- before the scoped lock -/
  | entry (op : Op α)
  /-- the first line under the lock; for the waiting functions also the loop test -/
  | body (op : Op α)
  /-- `condition_.notify_one()` -/
  | notifying (v : α)
  /-- `LOG_EVERY_N(INFO, 10000) << log_on_wait` -/
  | logging
  /-- asleep in `condition_.wait` -/
  | waiting (w : Waiter)
  /-- woken, by a notification or not, and not yet holding the mutex again -/
  | woken (notified : Bool) (w : Waiter)
  /-- `queue_.front()` -/
  | front (op : Op α)
  /-- `queue_.pop()` -/
  | removing (op : Op α) (v : α)
  /-- the return value is made, the lock still held -/
  | leaving (op : Op α) (r : Answer α)
  deriving DecidableEq, Repr

/-- Between taking the mutex and giving it up. -/
def Pc.inside {α : Type} : Pc α → Bool
  | .body _ | .notifying _ | .logging | .front _ | .removing _ _ | .leaving _ _ => true
  | _ => false

/-- The object, its threads, and the record of what passed through it. -/
structure State (τ α : Type) where
  queue : List α
  owner : Option τ
  pc : τ → Pc α
  pushed : List α
  removed : List α
  fault : Bool

/-- One step of one thread. -/
inductive Event (τ α : Type)
  | call (t : τ) (op : Op α)
  | acquire (t : τ)
  | giveUp (t : τ)
  | line (t : τ)
  | notify (t : τ) (woken : Option τ)
  | wake (t : τ)
  | leave (t : τ)
  deriving DecidableEq

namespace State

variable {τ α : Type} [DecidableEq τ]

/-- An empty queue, and no call yet. -/
def init : State τ α :=
  { queue := [], owner := none, pc := fun _ => .idle, pushed := [], removed := [], fault := false }

/-- The thread is at another line. -/
def goto (s : State τ α) (t : τ) (pc : Pc α) : State τ α :=
  { s with pc := Function.update s.pc t pc }

/-- `condition_.wait(lock)` up to falling asleep. -/
def sleep (s : State τ α) (t : τ) (w : Waiter) : State τ α :=
  { s.goto t (.waiting w) with owner := none }

/-- The next line of the thread that holds the mutex. -/
def runLine (s : State τ α) (t : τ) : State τ α :=
  match s.pc t with
  | .body (.push v) =>
      { s.goto t (.notifying v) with queue := s.queue ++ [v], pushed := s.pushed ++ [v] }
  | .body (.wait w) =>
      if s.queue = [] then
        if w = .popLog then s.goto t .logging else s.sleep t w
      else s.goto t (.front (.wait w))
  | .body .tryPop =>
      if s.queue = [] then s.goto t (.leaving .tryPop .notFound) else s.goto t (.front .tryPop)
  | .body .tryPeek =>
      if s.queue = [] then s.goto t (.leaving .tryPeek .notFound) else s.goto t (.front .tryPeek)
  | .body .size => s.goto t (.leaving .size (.size s.queue.length))
  | .body .nonblockingSize => s.goto t (.leaving .nonblockingSize (.size s.queue.length))
  | .logging => s.sleep t .popLog
  | .front op =>
      match s.queue with
      | [] => { s with fault := true }
      | v :: _ =>
          if op.takes then s.goto t (.removing op v) else s.goto t (.leaving op (op.answer v))
  | .removing op v =>
      match s.queue with
      | [] => { s with fault := true }
      | x :: rest =>
          { s.goto t (.leaving op (op.answer v)) with queue := rest, removed := s.removed ++ [x] }
  | _ => s

/-- One step, with the answer of the call that it ends. -/
def step (s : State τ α) : Event τ α → State τ α × Option (Op α × Answer α)
  | .call t op => (s.goto t (.entry op), none)
  | .acquire t =>
      match s.pc t with
      | .entry op => ({ s.goto t (.body op) with owner := some t }, none)
      | .woken _ w => ({ s.goto t (.body (.wait w)) with owner := some t }, none)
      | _ => (s, none)
  | .giveUp t => (s.goto t .idle, some (.nonblockingSize, .notFound))
  | .line t => (s.runLine t, none)
  | .notify t woken =>
      match s.pc t, woken with
      | .notifying v, none => (s.goto t (.leaving (.push v) .done), none)
      | .notifying v, some u =>
          match s.pc u with
          | .waiting w => ((s.goto u (.woken true w)).goto t (.leaving (.push v) .done), none)
          | _ => (s, none)
      | _, _ => (s, none)
  | .wake t =>
      match s.pc t with
      | .waiting w => (s.goto t (.woken false w), none)
      | _ => (s, none)
  | .leave t =>
      match s.pc t with
      | .leaving op r => ({ s.goto t .idle with owner := none }, some (op, r))
      | _ => (s, none)

end State

namespace Pc

variable {α : Type}

/-- Asleep in `condition_.wait`. -/
def asleep : Pc α → Bool
  | .waiting _ => true
  | _ => false

/-- Woken by `notify_one`, and still due to take the mutex again. -/
def notified : Pc α → Bool
  | .woken true _ => true
  | _ => false

/-- Waiting to take the mutex, first or again. -/
def wantsMutex : Pc α → Bool
  | .entry _ | .woken _ _ => true
  | _ => false

/-- At a line under the lock that `line` runs. -/
def atLine : Pc α → Bool
  | .body _ | .logging | .front _ | .removing _ _ => true
  | _ => false

/-- About to execute `notify_one`. -/
def atNotify : Pc α → Bool
  | .notifying _ => true
  | _ => false

/-- About to give up the mutex and return. -/
def atReturn : Pc α → Bool
  | .leaving _ _ => true
  | _ => false

end Pc

namespace State

variable {τ α : Type}

/-- What the language and the scheduler allow: a step of a thread that is there,
the mutex taken only when free, and `notify_one` waking a sleeper if any. -/
def Enabled (s : State τ α) : Event τ α → Prop
  | .call t _ => s.pc t = .idle
  | .acquire t => (s.pc t).wantsMutex ∧ s.owner = none
  | .giveUp t => s.pc t = .entry .nonblockingSize ∧ s.owner ≠ none
  | .line t => (s.pc t).atLine
  | .notify t (some u) => (s.pc t).atNotify ∧ (s.pc u).asleep
  | .notify t none => (s.pc t).atNotify ∧ ∀ u, (s.pc u).asleep = false
  | .wake t => (s.pc t).asleep
  | .leave t => (s.pc t).atReturn

instance [DecidableEq τ] [DecidableEq α] [Fintype τ] (s : State τ α) : ∀ e, Decidable (s.Enabled e)
  | .call t _ => inferInstanceAs (Decidable (s.pc t = .idle))
  | .acquire t => inferInstanceAs (Decidable ((s.pc t).wantsMutex ∧ s.owner = none))
  | .giveUp t => inferInstanceAs (Decidable (s.pc t = .entry .nonblockingSize ∧ s.owner ≠ none))
  | .line t => inferInstanceAs (Decidable ((s.pc t).atLine))
  | .notify t (some u) => inferInstanceAs (Decidable ((s.pc t).atNotify ∧ (s.pc u).asleep))
  | .notify t none =>
      inferInstanceAs (Decidable ((s.pc t).atNotify ∧ ∀ u, (s.pc u).asleep = false))
  | .wake t => inferInstanceAs (Decidable ((s.pc t).asleep))
  | .leave t => inferInstanceAs (Decidable ((s.pc t).atReturn))

end State

end TorchTest.BlockingQueue
