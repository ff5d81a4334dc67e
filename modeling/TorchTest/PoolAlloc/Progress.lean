import TorchTest.Library.Counting
import TorchTest.PoolAlloc.ThreadSafety

/-!
# Every call comes to an end

A call runs a bounded number of lines, of which those under the lock are at most
twenty-three: `_M_allocate_chunk` never returns more objects than it was asked for, so the
loop of `_M_refill` makes at most nineteen turns. The thread that has the mutex never
waits for anything. So whatever the interleaving, threads that are left alone finish their
calls, no two of them wait for each other, and then every block in use is with a client
(`finishes_of_run`).
-/

namespace TorchTest.PoolAlloc

/-- `_M_allocate_chunk` returns no more objects than it was asked for. -/
theorem Pool.nobjs_le {n nobjs fuel : Nat} {answers : List (Option Nat)} {s pool : Pool}
    {chunk k : Nat}
    (found : allocateChunk n nobjs fuel answers s = (.ok (chunk, k), pool)) : k ≤ nobjs := by
  induction fuel generalizing answers s with
  | zero => cases found
  | succ fuel ih =>
    simp only [allocateChunk] at found
    split at found
    · cases found
      exact le_refl _
    split at found
    · rename_i less room
      cases found
      -- what is left is less than the bytes of `nobjs` objects
      have short : SizeT.sub s.endFree s.startFree < n * nobjs :=
        (Nat.lt_of_not_le less).trans_le (Nat.mod_le _ _)
      exact (Nat.div_lt_of_lt_mul short).le
    split at found
    · cases found
    · exact ih found
    split at found
    · cases found
    · exact ih found
    · cases found

namespace Threads

/-- A thread's own line, not a new call or a write. -/
def Event.IsLine {τ : Type} : Event τ → Prop
  | .line _ _ => True
  | _ => False

instance {τ : Type} : ∀ e : Event τ, Decidable e.IsLine
  | .line _ _ => isTrue True.intro
  | .call _ _ | .write _ _ _ => isFalse not_false

namespace Pc

/-- In a call. -/
def busy : Pc → Bool
  | .idle => false
  | _ => true

/-- The lines that a call may still run. -/
def work : Pc → Nat
  | .idle => 0
  | .leaving _ _ => 1
  | .system _ | .unlocking _ _ => 2
  | .pushing _ _ _ | .popping _ _ _ => 3
  | .linking _ _ _ nobjs i _ => 2 + (nobjs - i)
  | .heading _ _ _ nobjs => 2 + nobjs
  | .refilling _ _ => 23
  | .locked _ => 24
  | .lock _ => 25
  | .branch _ => 26
  | .asking _ _ => 27
  | .entry _ => 28

/-- A thread with the mutex waits for nothing. -/
theorem waits_of_inside {pc : Pc} (inside : pc.inside = true) : pc.waits = false := by
  cases pc with
  | lock c => cases inside
  | _ => rfl

end Pc

namespace State

variable {τ : Type} {s s' : State τ} {q : World} {t : τ} {e : Event τ}

/-- While a thread is in a call, some thread can run a line. -/
theorem Coherent.exists_line (coh : s.Coherent q) (busy : s.pc t ≠ .idle) :
    ∃ u, ∀ answer, s.Enabled (.line u answer) := by
  cases mutex : s.mutex with
  | none => exact ⟨t, fun _ => ⟨busy, fun _ => mutex⟩⟩
  | some u =>
    have inside := (coh.mutex u).mpr mutex
    refine ⟨u, fun _ => ⟨fun idle => ?_, fun waits => ?_⟩⟩
    · rw [idle] at inside
      cases inside
    · rw [Pc.waits_of_inside inside] at waits
      cases waits

/-- When no thread is in a call, the clients have the blocks in use. -/
theorem Coherent.held_of_idle (coh : s.Coherent q) (idle : ∀ t, s.pc t = .idle) :
    s.mutex = none ∧ ∀ b, b ∈ s.held ↔ b ∈ s.inUse := by
  constructor
  · cases mutex : s.mutex with
    | none => rfl
    | some t =>
      have inside := (coh.mutex t).mpr mutex
      rw [idle t] at inside
      cases inside
  · intro b
    rcases coh.owned with ⟨place, owned⟩
    rw [owned.inUse, owned.held]
    cases where_b : place b with
    | none => simp
    | some x =>
      cases x with
      | clients => simp
      | thread t =>
        have carries := (owned.carried t b).mpr where_b
        rw [idle t] at carries
        cases carries

variable [DecidableEq τ]

/-- Every line leaves its call less work. -/
theorem Coherent.exists_less (coh : s.Coherent q) (move : Move s e s') (line : e.IsLine) :
    ∃ t pc, s'.pc = Function.update s.pc t pc ∧ pc.work < (s.pc t).work := by
  have goto : ∀ {t old pc}, s'.pc = Function.update s.pc t pc → s.pc t = old →
      pc.work < old.work → ∃ t pc, s'.pc = Function.update s.pc t pc ∧ pc.work < (s.pc t).work :=
    fun pcs at_t less => ⟨_, _, pcs, at_t ▸ less⟩
  have critical : ∀ {t}, (s.pc t).inside = true → s.Critical (s.pc t) := fun under =>
    coh.holder_eq under ▸ coh.critical
  cases move with
  | call t c idle held => exact line.elim
  | write t a v idle held => exact line.elim
  | pass t answer pc pass =>
    refine goto rfl rfl ?_
    generalize s.pc t = old at pass
    cases pass <;> simp [Pc.work]
  | answer t answer c r entry trivially => exact goto rfl entry (by simp [Pc.work])
  | ask t answer T n asking => exact goto rfl asking (by simp [Pc.work])
  | obtain t answer T n system => exact goto rfl system (by simp [Pc.work])
  | discard t answer T p n system => exact goto rfl system (by simp [Pc.work])
  | enter t answer c lock free => exact goto rfl lock (by simp [Pc.work])
  | empty t answer T n locked empty => exact goto rfl locked (by simp [Pc.work])
  | head t answer T n result locked head nonzero => exact goto rfl locked (by simp [Pc.work])
  | store t answer T p n locked => exact goto rfl locked (by simp [Pc.work])
  | pop t answer T n result popping => exact goto rfl popping (by simp [Pc.work])
  | throw t answer T n e pool refilling thrown => exact goto rfl refilling (by simp [Pc.work])
  | chunk t answer T n chunk nobjs pool refilling found =>
    have few := Pool.nobjs_le found
    refine goto rfl refilling ?_
    split_ifs
    · simp [Pc.work]
    · simp only [Pc.work]
      omega
  | heads t answer T n chunk nobjs heading =>
    have known := critical (t := t) (by rw [heading]; rfl)
    rw [heading] at known
    have many : 2 ≤ nobjs := known.1
    refine goto rfl heading ?_
    simp only [Pc.work]
    omega
  | last t answer T n chunk nobjs i obj linking last =>
    have known := critical (t := t) (by rw [linking]; rfl)
    rw [linking] at known
    have more : i < nobjs := known.1
    refine goto rfl linking ?_
    simp only [Pc.work]
    omega
  | turn t answer T n chunk nobjs i obj linking other =>
    have known := critical (t := t) (by rw [linking]; rfl)
    rw [linking] at known
    have more : i < nobjs := known.1
    refine goto rfl linking ?_
    simp only [Pc.work]
    omega
  | push t answer T p n pushing => exact goto rfl pushing (by simp [Pc.work])
  | unlock t answer c r unlocking => exact goto rfl unlocking (by simp [Pc.work])
  | leave t answer c r leaving => exact goto rfl leaving (by simp [Pc.work])

/-- No call has more than twenty-eight lines left. -/
theorem Coherent.work_le (coh : s.Coherent q) (move : Move s e s')
    (bounded : ∀ t, (s.pc t).work ≤ 28) (u : τ) : (s'.pc u).work ≤ 28 := by
  have updated : ∀ {t pc}, s'.pc = Function.update s.pc t pc → pc.work ≤ 28 →
      (s'.pc u).work ≤ 28 := by
    intro t pc pcs small
    rw [pcs]
    rcases eq_or_ne u t with rfl | other
    · rwa [Function.update_self]
    · rw [Function.update_of_ne other]
      exact bounded u
  cases e with
  | call t c =>
    cases move
    exact updated rfl (le_refl 28)
  | write t a v =>
    cases move
    exact bounded u
  | line t answer =>
    rcases coh.exists_less move True.intro with ⟨t, pc, pcs, less⟩
    exact updated pcs (less.le.trans (bounded t))

variable [Fintype τ]

/-- Every line leaves less work to the threads. -/
theorem Coherent.work_lt (coh : s.Coherent q) (move : Move s e s') (line : e.IsLine) :
    weight Pc.work s'.pc < weight Pc.work s.pc := by
  rcases coh.exists_less move line with ⟨t, pc, pcs, less⟩
  have moved := weight_update Pc.work s.pc t pc
  rw [pcs]
  omega

/-- In every interleaving, threads that are left alone run at most twenty-eight lines for
each call that they are in. As long as a thread is in a call, some thread can run a line;
and when none is, the mutex is free and the clients have all blocks in use. -/
theorem finishes_of_run {m : Machine} {es es' : List (Event τ)}
    (run : Admissible (step false) (fun s e => s.Enabled e ∧ s.SystemOk e) (init m) es)
    (left : Admissible (step false) (fun s e => (s.Enabled e ∧ s.SystemOk e) ∧ e.IsLine)
      (after (step false) (init m) es) es') :
    let s := after (step false) (init m) es
    let s' := after (step false) (init m) (es ++ es')
    es'.length ≤ 28 * count Pc.busy s.pc ∧
      ((∃ t, s'.pc t ≠ .idle) → ∃ t, ∀ answer, s'.Enabled (.line t answer)) ∧
      ((∀ t, s'.pc t = .idle) → s'.mutex = none ∧ ∀ b, b ∈ s'.held ↔ b ∈ s'.inUse) := by
  intro s s'
  have bounded : (∃ q, s.Coherent q) ∧ ∀ t, (s.pc t).work ≤ 28 :=
    run.invariant (I := fun s => (∃ q, s.Coherent q) ∧ ∀ t, (s.pc t).work ≤ 28)
      ⟨⟨_, coherent_init m⟩, fun _ => Nat.zero_le _⟩ fun s e both ok => by
        rcases both with ⟨⟨q, coh⟩, small⟩
        rcases coh.advance ok with ⟨q', _, coh'⟩
        exact ⟨⟨q', coh'⟩, coh.work_le (move_of_enabled ok.1) small⟩
  rcases bounded with ⟨coherent, small⟩
  have whole : Admissible (step false) (fun s e => s.Enabled e ∧ s.SystemOk e) (init m)
      (es ++ es') :=
    admissible_append.mpr ⟨run, (admissible_and.mp left).1⟩
  rcases coherent_of_run whole with ⟨q', _, coh'⟩
  refine ⟨?_, fun ⟨t, busy⟩ => coh'.exists_line busy, coh'.held_of_idle⟩
  have used := left.length_add_le (I := fun s => ∃ q, s.Coherent q) (f := fun s => weight Pc.work s.pc)
    coherent (fun s e coherent ok => ?_) fun s e coherent ok => ?_
  · refine (Nat.le_add_right _ _).trans (used.trans (weight_le fun t => ?_))
    have less := small t
    change (s.pc t).work ≤ 28 * (s.pc t).busy.toNat
    cases at_t : s.pc t with
    | idle => exact Nat.zero_le _
    | _ =>
      rw [at_t] at less
      exact less
  · rcases coherent with ⟨q, coh⟩
    exact (coh.advance ok.1).imp fun _ both => both.2
  · rcases coherent with ⟨q, coh⟩
    exact coh.work_lt (move_of_enabled ok.1.1) ok.2

/-- Two threads in a call, one of them waiting for the other one's refill: they finish
after twenty-nine lines, and have the blocks that they asked for. -/
theorem finishes_of_run_waiting :
    let es : List (Event (Fin 2)) :=
      [.call 0 (.allocate .pair 1), .line 0 none, .call 1 (.allocate .pair 1), .line 1 none,
        .line 0 none, .line 1 none, .line 1 none, .line 0 none, .line 1 none]
    let es' : List (Event (Fin 2)) :=
      .line 1 none :: .line 1 (some 4096) :: List.replicate 22 (.line 1 none) ++
        List.replicate 5 (.line 0 none)
    let s' := after (step false) (init .zero) (es ++ es')
    es'.length ≤ 28 * 2 ∧ s'.mutex = none ∧ ⟨.pair, 1, 4112⟩ ∈ s'.held := by
  intro es es' s'
  have run : Admissible (step false) (fun s e => s.Enabled e ∧ s.SystemOk e) (init .zero) es := by
    decide +kernel
  have left : Admissible (step false) (fun s e => (s.Enabled e ∧ s.SystemOk e) ∧ e.IsLine)
      (after (step false) (init .zero) es) es' := by decide +kernel
  rcases finishes_of_run run left with ⟨short, _, finished⟩
  rcases finished (by decide +kernel) with ⟨free, held⟩
  exact ⟨short, free, (held _).mpr (by decide +kernel)⟩

end State

end Threads

end TorchTest.PoolAlloc
