import TorchTest.PoolAlloc.Flags
import TorchTest.PoolAlloc.Threads

/-!
# What a thread can do in one step

`Move s e s'` has one constructor for every way in which an enabled event can take the
threads from `s` to `s'` while `GLIBCXX_FORCE_NEW` is not set (`move_of_enabled`). Steps
that only take a thread to another line are `Pass`, and calls that are answered by their
first tests are `Trivial`.
-/

namespace TorchTest.PoolAlloc.Threads

variable {τ : Type} [DecidableEq τ]

/-- The call is answered by its first tests. -/
inductive Trivial : Call → Result → Prop
  | nothing (T : ElemType) : Trivial (.allocate T 0) (.returned 0)
  | beyond (T : ElemType) (n : Nat) : n ≠ 0 → Pool.maxSize T < n →
      Trivial (.allocate T n) (.failed .badAlloc)
  | null (T : ElemType) (p n : Nat) : n = 0 ∨ p = 0 → Trivial (.deallocate T p n) .done

/-- The call gets past its first tests. -/
def Call.Fits : Call → Prop
  | .allocate T n => n ≠ 0 ∧ n * T.size < addressSpace
  | .deallocate _ p n => n ≠ 0 ∧ p ≠ 0

namespace State

/-- A thread takes a decision. -/
inductive Pass (s : State τ) : Pc → Pc → Prop
  | undecided (T : ElemType) (n : Nat) : (Call.allocate T n).Fits →
      Pass s (.entry (.allocate T n)) (.asking T n)
  | begun (c : Call) : c.Fits → Pass s (.entry c) (.branch c)
  | large (c : Call) : maxBytes < c.bytes ∨ 0 < s.pool.forceNew c.type →
      Pass s (.branch c) (.system c)
  | small (c : Call) : c.bytes ≤ maxBytes → Pass s (.branch c) (.lock c)

/-- The steps of the threads, case by case. -/
inductive Move (s : State τ) : Event τ → State τ → Prop
  | call (t : τ) (c : Call) : s.pc t = .idle → (∀ b ∈ c.block, b ∈ s.held) →
      Move s (.call t c) { s.goto t (.entry c) with held := c.block.elim s.held s.held.erase }
  | write (t : τ) (a : Nat) (v : UInt8) : s.pc t = .idle → (∃ b ∈ s.held, a ∈ b.span) →
      Move s (.write t a v)
        { s with pool := { s.pool with machine := s.pool.machine.writeByte a v } }
  | pass (t : τ) (answer : Option Nat) (pc : Pc) : Pass s (s.pc t) pc →
      Move s (.line t answer) (s.goto t pc)
  | answer (t : τ) (answer : Option Nat) (c : Call) (r : Result) : s.pc t = .entry c →
      Trivial c r → Move s (.line t answer) (s.goto t (.leaving c r))
  | ask (t : τ) (answer : Option Nat) (T : ElemType) (n : Nat) : s.pc t = .asking T n →
      Move s (.line t answer)
        { s.goto t (.branch (.allocate T n)) with
          pool := s.pool.withFlags
            (Function.update s.pool.forceNew T (s.pool.forceNew T + -1)) }
  | obtain (t : τ) (answer : Option Nat) (T : ElemType) (n : Nat) :
      s.pc t = .system (.allocate T n) →
      Move s (.line t answer)
        { s.goto t (.leaving (.allocate T n) (.ofOption answer)) with
          inUse := (answer.map fun p => ⟨T, n, p⟩).toList ++ s.inUse }
  | discard (t : τ) (answer : Option Nat) (T : ElemType) (p n : Nat) :
      s.pc t = .system (.deallocate T p n) →
      Move s (.line t answer)
        { s.goto t (.leaving (.deallocate T p n) .done) with inUse := s.inUse.erase ⟨T, n, p⟩ }
  | enter (t : τ) (answer : Option Nat) (c : Call) : s.pc t = .lock c → s.mutex = none →
      Move s (.line t answer) { s.goto t (.locked c) with mutex := some t }
  | empty (t : τ) (answer : Option Nat) (T : ElemType) (n : Nat) :
      s.pc t = .locked (.allocate T n) →
      s.pool.freeList (getFreeList (Call.allocate T n).bytes) = 0 →
      Move s (.line t answer) (s.goto t (.refilling T n))
  | head (t : τ) (answer : Option Nat) (T : ElemType) (n result : Nat) :
      s.pc t = .locked (.allocate T n) →
      s.pool.freeList (getFreeList (Call.allocate T n).bytes) = result → result ≠ 0 →
      Move s (.line t answer) (s.goto t (.popping T n result))
  | store (t : τ) (answer : Option Nat) (T : ElemType) (p n : Nat) :
      s.pc t = .locked (.deallocate T p n) →
      Move s (.line t answer)
        { s.goto t (.pushing T p n) with
          pool := { s.pool with
            machine := s.pool.machine.storePtr p
              (s.pool.freeList (getFreeList (Call.deallocate T p n).bytes)) }
          inUse := s.inUse.erase ⟨T, n, p⟩ }
  | pop (t : τ) (answer : Option Nat) (T : ElemType) (n result : Nat) :
      s.pc t = .popping T n result →
      Move s (.line t answer)
        { s.goto t (.unlocking (.allocate T n) (.returned result)) with
          pool := s.pool.pop (getFreeList (Call.allocate T n).bytes) result
          inUse := ⟨T, n, result⟩ :: s.inUse }
  | throw (t : τ) (answer : Option Nat) (T : ElemType) (n : Nat) (e : Failure) (pool : Pool) :
      s.pc t = .refilling T n →
      Pool.allocateChunk (roundUp (Call.allocate T n).bytes) 20 3 [answer] s.pool =
        (.error e, pool) →
      Move s (.line t answer)
        { s.goto t (.unlocking (.allocate T n) (.failed e)) with pool := pool }
  | chunk (t : τ) (answer : Option Nat) (T : ElemType) (n chunk nobjs : Nat) (pool : Pool) :
      s.pc t = .refilling T n →
      Pool.allocateChunk (roundUp (Call.allocate T n).bytes) 20 3 [answer] s.pool =
        (.ok (chunk, nobjs), pool) →
      Move s (.line t answer)
        { s.goto t (if nobjs = 1 then .unlocking (.allocate T n) (checkRet chunk)
            else .heading T n chunk nobjs) with
          pool := pool
          inUse := ((Call.allocate T n).got (checkRet chunk)).toList ++ s.inUse }
  | heads (t : τ) (answer : Option Nat) (T : ElemType) (n chunk nobjs : Nat) :
      s.pc t = .heading T n chunk nobjs →
      Move s (.line t answer)
        { s.goto t (.linking T n chunk nobjs 1
            (SizeT.add chunk (roundUp (Call.allocate T n).bytes))) with
          pool := { s.pool with
            freeList := Function.update s.pool.freeList
              (getFreeList (roundUp (Call.allocate T n).bytes))
              (SizeT.add chunk (roundUp (Call.allocate T n).bytes)) } }
  | last (t : τ) (answer : Option Nat) (T : ElemType) (n chunk nobjs i currentObj : Nat) :
      s.pc t = .linking T n chunk nobjs i currentObj → nobjs - 1 = i →
      Move s (.line t answer)
        { s.goto t (.unlocking (.allocate T n) (checkRet chunk)) with
          pool := { s.pool with machine := s.pool.machine.storePtr currentObj 0 } }
  | turn (t : τ) (answer : Option Nat) (T : ElemType) (n chunk nobjs i currentObj : Nat) :
      s.pc t = .linking T n chunk nobjs i currentObj → nobjs - 1 ≠ i →
      Move s (.line t answer)
        { s.goto t (.linking T n chunk nobjs (i + 1)
            (SizeT.add currentObj (roundUp (Call.allocate T n).bytes))) with
          pool := { s.pool with
            machine := s.pool.machine.storePtr currentObj
              (SizeT.add currentObj (roundUp (Call.allocate T n).bytes)) } }
  | push (t : τ) (answer : Option Nat) (T : ElemType) (p n : Nat) : s.pc t = .pushing T p n →
      Move s (.line t answer)
        { s.goto t (.unlocking (.deallocate T p n) .done) with
          pool := { s.pool with
            freeList := Function.update s.pool.freeList
              (getFreeList (Call.deallocate T p n).bytes) p } }
  | unlock (t : τ) (answer : Option Nat) (c : Call) (r : Result) : s.pc t = .unlocking c r →
      Move s (.line t answer) { s.goto t (.leaving c r) with mutex := none }
  | leave (t : τ) (answer : Option Nat) (c : Call) (r : Result) : s.pc t = .leaving c r →
      Move s (.line t answer) { s.goto t .idle with held := (c.got r).toList ++ s.held }

variable {s : State τ} {e : Event τ} {t : τ} {answer : Option Nat}

/-- The first line, case by case. -/
theorem move_of_entry {c : Call} (at_t : s.pc t = .entry c) :
    Move s (.line t answer) (s.runLine false t answer) := by
  cases c with
  | allocate T n =>
    simp only [runLine, at_t]
    by_cases zero : n = 0
    · subst zero
      rw [if_pos rfl]
      exact .answer t answer _ _ at_t (.nothing T)
    by_cases beyond : Pool.maxSize T < n
    · rw [if_neg zero, if_pos beyond]
      exact .answer t answer _ _ at_t (.beyond T n zero beyond)
    have fits : (Call.allocate T n).Fits :=
      ⟨zero, Nat.lt_of_not_le (mt Pool.maxSize_lt_iff.mpr beyond)⟩
    rw [if_neg zero, if_neg beyond]
    by_cases undecided : s.pool.forceNew T = 0
    · rw [if_pos undecided]
      exact .pass t answer _ (at_t ▸ .undecided T n fits)
    · rw [if_neg undecided]
      exact .pass t answer _ (at_t ▸ .begun _ fits)
  | deallocate T p n =>
    simp only [runLine, at_t]
    by_cases fits : n ≠ 0 ∧ p ≠ 0
    · rw [if_pos fits]
      exact .pass t answer _ (at_t ▸ .begun _ fits)
    · rw [if_neg fits]
      refine .answer t answer _ _ at_t (.null T p n ?_)
      omega

/-- The first line under the lock, case by case. -/
theorem move_of_locked {c : Call} (at_t : s.pc t = .locked c) :
    Move s (.line t answer) (s.runLine false t answer) := by
  cases c with
  | allocate T n =>
    simp only [runLine, at_t]
    by_cases empty : s.pool.freeList (getFreeList (Call.allocate T n).bytes) = 0
    · rw [if_pos empty]
      exact .empty t answer T n at_t empty
    · rw [if_neg empty]
      exact .head t answer T n _ at_t rfl empty
  | deallocate T p n =>
    simp only [runLine, at_t]
    exact .store t answer T p n at_t

/-- Every enabled event is one of the moves. -/
theorem move_of_enabled (enabled : s.Enabled e) : Move s e (s.step false e).1 := by
  cases e with
  | call t c => exact .call t c enabled.1 enabled.2
  | write t a v => exact .write t a v enabled.1 enabled.2
  | line t answer =>
    change Move s _ (s.runLine false t answer)
    cases at_t : s.pc t with
    | idle => exact absurd at_t enabled.1
    | entry c => exact move_of_entry at_t
    | asking T n =>
      simp only [runLine, at_t]
      exact .ask t answer T n at_t
    | branch c =>
      simp only [runLine, at_t]
      by_cases large : maxBytes < c.bytes ∨ 0 < s.pool.forceNew c.type
      · rw [if_pos large]
        exact .pass t answer _ (at_t ▸ .large c large)
      · rw [if_neg large]
        exact .pass t answer _ (at_t ▸ .small c (Nat.le_of_not_lt fun more => large (.inl more)))
    | system c =>
      cases c with
      | allocate T n =>
        simp only [runLine, at_t]
        exact .obtain t answer T n at_t
      | deallocate T p n =>
        simp only [runLine, at_t]
        exact .discard t answer T p n at_t
    | lock c =>
      have free : s.mutex = none := enabled.2 (by rw [at_t]; rfl)
      simp only [runLine, at_t]
      exact .enter t answer c at_t free
    | locked c => exact move_of_locked at_t
    | popping T n result =>
      simp only [runLine, at_t]
      exact .pop t answer T n result at_t
    | refilling T n =>
      simp only [runLine, at_t]
      rcases result : Pool.allocateChunk (roundUp (Call.allocate T n).bytes) 20 3 [answer] s.pool
        with ⟨e | ⟨chunk, nobjs⟩, pool⟩
      · exact .throw t answer T n e pool at_t result
      · exact .chunk t answer T n chunk nobjs pool at_t result
    | heading T n chunk nobjs =>
      simp only [runLine, at_t]
      exact .heads t answer T n chunk nobjs at_t
    | linking T n chunk nobjs i currentObj =>
      simp only [runLine, at_t]
      by_cases last : nobjs - 1 = i
      · rw [if_pos last]
        exact .last t answer T n chunk nobjs i currentObj at_t last
      · rw [if_neg last]
        exact .turn t answer T n chunk nobjs i currentObj at_t last
    | pushing T p n =>
      simp only [runLine, at_t]
      exact .push t answer T p n at_t
    | unlocking c r =>
      simp only [runLine, at_t]
      exact .unlock t answer c r at_t
    | leaving c r =>
      simp only [runLine, at_t]
      exact .leave t answer c r at_t

end State

end TorchTest.PoolAlloc.Threads
