import TorchTest.PoolAlloc.World

/-!
# `__pool_alloc` under threads

Any number of threads call `allocate` and `deallocate`, and every event is one thread
taking one step (`Pc` is the line it is at); the interleaving is free.

* `_S_force_new` is read and added to without the mutex, so two first calls may both
  ask the environment;
* the scoped lock is taken in front of the lists and given up behind them, also when
  `_M_refill` throws;
* under the lock, the head of the list, `_M_allocate_chunk`, the new head, every turn of
  the loop of `_M_refill`, and the two stores of `deallocate` are steps of their own;
* between calls a thread writes into the blocks that clients hold.

`inUse` records the blocks that were handed out and not taken back yet, whether from the
pool or from the system, and `held` those that clients have, between the return of
`allocate` and the call of `deallocate`.
-/

namespace TorchTest.PoolAlloc.Threads

/-- A call. -/
inductive Call
  | allocate (T : ElemType) (n : Nat)
  | deallocate (T : ElemType) (p n : Nat)
  deriving DecidableEq

/-- A call, or a byte written by a client. -/
inductive Op
  | call (c : Call)
  | write (a : Nat) (v : UInt8)
  deriving DecidableEq

namespace Call

/-- `_Tp`. -/
def type : Call → ElemType
  | .allocate T _ | .deallocate T _ _ => T

/-- `__bytes`. -/
def bytes : Call → Nat
  | .allocate T n | .deallocate T _ n => SizeT.mul n T.size

/-- The block that the call gives back. -/
def block : Call → Option Block
  | .allocate _ _ => none
  | .deallocate T p n => if p = 0 then none else some ⟨T, n, p⟩

/-- The block that the call got. -/
def got : Call → Result → Option Block
  | .allocate T n, .returned p => if n = 0 then none else some ⟨T, n, p⟩
  | _, _ => none

end Call

/-- What `allocate` makes of the block from the pool. -/
def checkRet (ret : Nat) : Result := if ret = 0 then .failed .badAlloc else .returned ret

/-- Where a thread is. -/
inductive Pc
  | idle
  /-- the first tests -/
  | entry (c : Call)
  /-- `getenv`, and the addition to `_S_force_new` -/
  | asking (T : ElemType) (n : Nat)
  /-- the pool, or the system -/
  | branch (c : Call)
  /-- `::operator new` or `::operator delete` -/
  | system (c : Call)
  /-- the constructor of the scoped lock -/
  | lock (c : Call)
  /-- the first line under the lock -/
  | locked (c : Call)
  /-- `*__free_list = __result->_M_free_list_link` -/
  | popping (T : ElemType) (n result : Nat)
  /-- `_M_allocate_chunk` -/
  | refilling (T : ElemType) (n : Nat)
  /-- `*__free_list = __next_obj` -/
  | heading (T : ElemType) (n chunk nobjs : Nat)
  /-- a turn of the loop of `_M_refill` -/
  | linking (T : ElemType) (n chunk nobjs i currentObj : Nat)
  /-- `*__free_list = __q` -/
  | pushing (T : ElemType) (p n : Nat)
  /-- the destructor of the scoped lock -/
  | unlocking (c : Call) (r : Result)
  /-- the return, or the exception -/
  | leaving (c : Call) (r : Result)
  deriving DecidableEq

/-- Between taking the mutex and giving it up. -/
def Pc.inside : Pc → Bool
  | .locked _ | .popping _ _ _ | .refilling _ _ | .heading _ _ _ _ | .linking _ _ _ _ _ _
  | .pushing _ _ _ | .unlocking _ _ => true
  | _ => false

/-- About to take the mutex. -/
def Pc.waits : Pc → Bool
  | .lock _ => true
  | _ => false

/-- The static members, the blocks, the mutex and the threads. -/
structure State (τ : Type) where
  pool : Pool
  inUse : List Block
  held : List Block
  mutex : Option τ
  pc : τ → Pc

/-- One step of one thread; a line that asks the system gets its answer. -/
inductive Event (τ : Type)
  | call (t : τ) (c : Call)
  | line (t : τ) (answer : Option Nat)
  | write (t : τ) (a : Nat) (v : UInt8)
  deriving DecidableEq

/-- The thread that takes the step. -/
def Event.thread {τ : Type} : Event τ → τ
  | .call t _ | .line t _ | .write t _ _ => t

namespace State

variable {τ : Type} [DecidableEq τ]

/-- Static initialization, no blocks and no calls. -/
def init (m : Machine) : State τ :=
  { pool := Pool.init m, inUse := [], held := [], mutex := none, pc := fun _ => .idle }

/-- The thread is at another line. -/
def goto (s : State τ) (t : τ) (pc : Pc) : State τ := { s with pc := Function.update s.pc t pc }

/-- `_M_refill` with what `_M_allocate_chunk` returned, or threw. -/
def refilled (s : State τ) (t : τ) (T : ElemType) (n : Nat) :
    Except Failure (Nat × Nat) × Pool → State τ
  | (.error e, pool) => { s.goto t (.unlocking (.allocate T n) (.failed e)) with pool := pool }
  | (.ok (chunk, nobjs), pool) =>
      let next : Pc :=
        if nobjs = 1 then .unlocking (.allocate T n) (checkRet chunk)
        else .heading T n chunk nobjs
      { s.goto t next with
        pool := pool
        inUse := ((Call.allocate T n).got (checkRet chunk)).toList ++ s.inUse }

/-- The next line of a thread; `getenv` is whether `GLIBCXX_FORCE_NEW` is set. -/
def runLine (getenv : Bool) (s : State τ) (t : τ) (answer : Option Nat) : State τ :=
  match s.pc t with
  | .idle => s
  | .entry (.allocate T n) =>
      if n = 0 then s.goto t (.leaving (.allocate T n) (.returned 0))
      else if Pool.maxSize T < n then s.goto t (.leaving (.allocate T n) (.failed .badAlloc))
      else if s.pool.forceNew T = 0 then s.goto t (.asking T n)
      else s.goto t (.branch (.allocate T n))
  | .entry (.deallocate T p n) =>
      if n ≠ 0 ∧ p ≠ 0 then s.goto t (.branch (.deallocate T p n))
      else s.goto t (.leaving (.deallocate T p n) .done)
  | .asking T n =>
      { s.goto t (.branch (.allocate T n)) with
        pool := { s.pool with
          forceNew := Function.update s.pool.forceNew T
            (s.pool.forceNew T + if getenv then 1 else -1) } }
  | .branch c =>
      if maxBytes < c.bytes ∨ 0 < s.pool.forceNew c.type then s.goto t (.system c)
      else s.goto t (.lock c)
  | .system (.allocate T n) =>
      { s.goto t (.leaving (.allocate T n) (.ofOption answer)) with
        inUse := (answer.map fun p => ⟨T, n, p⟩).toList ++ s.inUse }
  | .system (.deallocate T p n) =>
      { s.goto t (.leaving (.deallocate T p n) .done) with inUse := s.inUse.erase ⟨T, n, p⟩ }
  | .lock c => { s.goto t (.locked c) with mutex := some t }
  | .locked (.allocate T n) =>
      let result := s.pool.freeList (getFreeList (Call.allocate T n).bytes)
      if result = 0 then s.goto t (.refilling T n) else s.goto t (.popping T n result)
  | .locked (.deallocate T p n) =>
      let head := s.pool.freeList (getFreeList (Call.deallocate T p n).bytes)
      { s.goto t (.pushing T p n) with
        pool := { s.pool with machine := s.pool.machine.storePtr p head }
        inUse := s.inUse.erase ⟨T, n, p⟩ }
  | .popping T n result =>
      { s.goto t (.unlocking (.allocate T n) (.returned result)) with
        pool := s.pool.pop (getFreeList (Call.allocate T n).bytes) result
        inUse := ⟨T, n, result⟩ :: s.inUse }
  | .refilling T n =>
      s.refilled t T n
        (Pool.allocateChunk (roundUp (Call.allocate T n).bytes) 20 3 [answer] s.pool)
  | .heading T n chunk nobjs =>
      let size := roundUp (Call.allocate T n).bytes
      let nextObj := SizeT.add chunk size
      { s.goto t (.linking T n chunk nobjs 1 nextObj) with
        pool := { s.pool with
          freeList := Function.update s.pool.freeList (getFreeList size) nextObj } }
  | .linking T n chunk nobjs i currentObj =>
      let nextObj := SizeT.add currentObj (roundUp (Call.allocate T n).bytes)
      if nobjs - 1 = i then
        { s.goto t (.unlocking (.allocate T n) (checkRet chunk)) with
          pool := { s.pool with machine := s.pool.machine.storePtr currentObj 0 } }
      else
        { s.goto t (.linking T n chunk nobjs (i + 1) nextObj) with
          pool := { s.pool with machine := s.pool.machine.storePtr currentObj nextObj } }
  | .pushing T p n =>
      { s.goto t (.unlocking (.deallocate T p n) .done) with
        pool := { s.pool with
          freeList := Function.update s.pool.freeList
            (getFreeList (Call.deallocate T p n).bytes) p } }
  | .unlocking c r => { s.goto t (.leaving c r) with mutex := none }
  | .leaving c r => { s.goto t .idle with held := (c.got r).toList ++ s.held }

/-- One step, with the answer of the call that it ends. -/
def step (getenv : Bool) (s : State τ) : Event τ → State τ × Option (Op × Result)
  | .call t c => ({ s.goto t (.entry c) with held := c.block.elim s.held s.held.erase }, none)
  | .line t answer =>
      (s.runLine getenv t answer,
        match s.pc t with
        | .leaving c r => some (.call c, r)
        | _ => none)
  | .write _ a v =>
      ({ s with pool := { s.pool with machine := s.pool.machine.writeByte a v } },
        some (.write a v, .done))

end State

namespace State

variable {τ : Type}

/-- What the language, the scheduler and the clients promise: a thread makes one call at
a time, the mutex is taken only when free, and only blocks that clients hold are given
back or written to. -/
def Enabled (s : State τ) : Event τ → Prop
  | .call t c => s.pc t = .idle ∧ ∀ b ∈ c.block, b ∈ s.held
  | .line t _ => s.pc t ≠ .idle ∧ ((s.pc t).waits → s.mutex = none)
  | .write t a _ => s.pc t = .idle ∧ ∃ b ∈ s.held, a ∈ b.span

instance [DecidableEq τ] (s : State τ) : ∀ e, Decidable (s.Enabled e)
  | .call t c => inferInstanceAs (Decidable (s.pc t = .idle ∧ ∀ b ∈ c.block, b ∈ s.held))
  | .line t _ =>
      inferInstanceAs (Decidable (s.pc t ≠ .idle ∧ ((s.pc t).waits → s.mutex = none)))
  | .write t a _ =>
      inferInstanceAs (Decidable (s.pc t = .idle ∧ ∃ b ∈ s.held, a ∈ b.span))

/-- The pool with the blocks in use. -/
def world (s : State τ) : World := { pool := s.pool, live := s.inUse }

variable [DecidableEq τ]

/-- What the system promises without `GLIBCXX_FORCE_NEW`, read off the state after the
event. -/
def SystemOk (s : State τ) (e : Event τ) : Prop :=
  Granted ((s.step false e).1.world.direct ++ (s.step false e).1.pool.regions)

instance (s : State τ) (e : Event τ) : Decidable (s.SystemOk e) :=
  inferInstanceAs (Decidable (Granted _))

end State

end TorchTest.PoolAlloc.Threads
