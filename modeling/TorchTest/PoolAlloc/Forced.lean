import TorchTest.PoolAlloc.Threads

/-!
# The pool under `GLIBCXX_FORCE_NEW`

With `GLIBCXX_FORCE_NEW` set, the first request for a type makes its `_S_force_new`
positive. `deallocate` does not ask the environment: it relies on the flag that the request
for the block left behind. The flag is read and added to without the mutex, but it never
decreases, so in every interleaving all blocks come from the system and go back to it, no
thread takes the mutex, and the pool stays as it was initialized (`forced_of_run`).
-/

namespace TorchTest.PoolAlloc.Threads

/-- A line that a thread can be at, given the flags. -/
def Pc.Forced (flags : ElemType → Int) : Pc → Prop
  | .idle | .asking _ _ | .entry (.allocate _ _) => True
  | .entry (.deallocate T p _) => p ≠ 0 → 0 < flags T
  | .branch c | .system c => 0 < flags c.type
  | .leaving c r => ∀ b ∈ c.got r, 0 < flags b.type
  | _ => False

theorem Pc.Forced.mono {flags flags' : ElemType → Int} {pc : Pc} (forced : pc.Forced flags)
    (grown : ∀ T, flags T ≤ flags' T) : pc.Forced flags' := by
  cases pc with
  | entry c =>
    cases c with
    | allocate T n => exact True.intro
    | deallocate T p n => exact fun nonzero => (forced nonzero).trans_le (grown T)
  | branch c => exact forced.trans_le (grown _)
  | system c => exact forced.trans_le (grown _)
  | leaving c r => exact fun b got => (forced b got).trans_le (grown _)
  | _ => exact forced

namespace State

variable {τ : Type}

/-- The pool is as it was initialized, up to the flags and what clients wrote, and the flag
of every type that has a block or is past its question is positive. -/
structure Forced (m : Machine) (s : State τ) : Prop where
  pool : s.pool = { Pool.init s.pool.machine with forceNew := s.pool.forceNew }
  stores : s.pool.machine.stores = m.stores
  mutex : s.mutex = none
  flags : ∀ T, 0 ≤ s.pool.forceNew T
  held : ∀ b ∈ s.held, 0 < s.pool.forceNew b.type
  pcs : ∀ t, (s.pc t).Forced s.pool.forceNew

namespace Forced

variable [DecidableEq τ] {m : Machine} {s s' : State τ} {t : τ} {pc : Pc}

/-- A step that takes a thread to another line and leaves the pool alone. -/
theorem goto (forced : s.Forced m) (pool : s'.pool = s.pool) (mutex : s'.mutex = s.mutex)
    (pcs : s'.pc = Function.update s.pc t pc) (next : pc.Forced s.pool.forceNew)
    (held : ∀ b ∈ s'.held, b ∈ s.held ∨ 0 < s.pool.forceNew b.type) : s'.Forced m where
  pool := pool ▸ forced.pool
  stores := pool ▸ forced.stores
  mutex := mutex ▸ forced.mutex
  flags := pool ▸ forced.flags
  held b member := pool ▸ (held b member).elim (forced.held b) id
  pcs u := by
    rw [pcs, pool]
    rcases eq_or_ne u t with rfl | other
    · rwa [Function.update_self]
    · rw [Function.update_of_ne other]
      exact forced.pcs u

/-- The question, answered with yes. -/
theorem ask (forced : s.Forced m) (T : ElemType) (n : Nat) :
    State.Forced m
      { s.goto t (.branch (.allocate T n)) with
        pool := { s.pool with
          forceNew := Function.update s.pool.forceNew T (s.pool.forceNew T + 1) } } := by
  have grown : ∀ U, s.pool.forceNew U ≤
      Function.update s.pool.forceNew T (s.pool.forceNew T + 1) U := by
    intro U
    rcases eq_or_ne U T with rfl | other
    · rw [Function.update_self]
      exact Int.le_add_one (le_refl _)
    · rw [Function.update_of_ne other]
  have positive : 0 < Function.update s.pool.forceNew T (s.pool.forceNew T + 1) T := by
    rw [Function.update_self]
    exact Int.lt_add_one_of_le (forced.flags T)
  exact
    { pool := congrArg (fun pool : Pool => { pool with
        forceNew := Function.update s.pool.forceNew T (s.pool.forceNew T + 1) }) forced.pool
      stores := forced.stores
      mutex := forced.mutex
      flags := fun U => (forced.flags U).trans (grown U)
      held := fun b member => (forced.held b member).trans_le (grown _)
      pcs := fun u => by
        rcases eq_or_ne u t with rfl | other
        · simp only [State.goto, Function.update_self]
          exact positive
        · simp only [State.goto, Function.update_of_ne other]
          exact (forced.pcs u).mono grown }

/-- The first line. -/
theorem entry (forced : s.Forced m) {c : Call} (answer : Option Nat) (at_t : s.pc t = .entry c) :
    (s.runLine true t answer).Forced m := by
  have known := forced.pcs t
  rw [at_t] at known
  have stay : ∀ {pc}, pc.Forced s.pool.forceNew → (s.goto t pc).Forced m := fun next =>
    forced.goto rfl rfl rfl next fun _ => .inl
  cases c with
  | allocate T n =>
    simp only [runLine, at_t]
    split_ifs with zero beyond undecided
    · exact stay fun b got => by simp [Call.got, zero] at got
    · exact stay nofun
    · exact stay True.intro
    · exact stay ((forced.flags T).lt_of_ne' undecided)
  | deallocate T p n =>
    simp only [runLine, at_t]
    split_ifs with real
    · exact stay (known real.2)
    · exact stay nofun

/-- Every other line. -/
theorem line (forced : s.Forced m) (answer : Option Nat) : (s.runLine true t answer).Forced m := by
  have known := forced.pcs t
  cases at_t : s.pc t with
  | idle =>
    simp only [runLine, at_t]
    exact forced
  | entry c => exact forced.entry answer at_t
  | asking T n =>
    simp only [runLine, at_t]
    exact forced.ask T n
  | branch c =>
    rw [at_t] at known
    simp only [runLine, at_t]
    rw [if_pos (.inr known)]
    exact forced.goto rfl rfl rfl known fun _ => .inl
  | system c =>
    rw [at_t] at known
    cases c with
    | allocate T n =>
      simp only [runLine, at_t]
      refine forced.goto rfl rfl rfl (fun b got => ?_) fun _ => .inl
      cases answer with
      | none => cases got
      | some p =>
        simp only [Result.ofOption, Call.got, Option.mem_def, Option.ite_none_left_eq_some,
          Option.some.injEq] at got
        rcases got with ⟨_, rfl⟩
        exact known
    | deallocate T p n =>
      simp only [runLine, at_t]
      exact forced.goto rfl rfl rfl nofun fun _ => .inl
  | leaving c r =>
    rw [at_t] at known
    simp only [runLine, at_t]
    refine forced.goto rfl rfl rfl True.intro fun b member => ?_
    rcases List.mem_append.mp member with got | held
    · exact .inr (known b (Option.mem_toList.mp got))
    · exact .inl held
  | _ =>
    rw [at_t] at known
    exact known.elim

/-- Every event keeps the pool unused. -/
theorem step (forced : s.Forced m) {e : Event τ} (enabled : s.Enabled e) :
    (s.step true e).1.Forced m := by
  cases e with
  | line t answer => exact forced.line answer
  | call t c =>
    refine forced.goto rfl rfl rfl ?_ fun b member => .inl ?_
    · cases c with
      | allocate T n => exact True.intro
      | deallocate T p n =>
        exact fun nonzero => forced.held ⟨T, n, p⟩ (enabled.2 _ (if_neg nonzero))
    · cases given : c.block with
      | none => simpa [State.step, given] using member
      | some d =>
        have among : b ∈ s.held.erase d := by simpa [State.step, given] using member
        exact List.mem_of_mem_erase among
  | write t a v =>
    exact
      { pool := congrArg (fun pool : Pool => { pool with
          machine := s.pool.machine.writeByte a v }) forced.pool
        stores := forced.stores
        mutex := forced.mutex
        flags := forced.flags
        held := forced.held
        pcs := forced.pcs }

end Forced

end State

end TorchTest.PoolAlloc.Threads
