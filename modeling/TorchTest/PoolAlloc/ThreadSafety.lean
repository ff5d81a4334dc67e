import TorchTest.Library.Linearization
import TorchTest.PoolAlloc.Accounting
import TorchTest.PoolAlloc.Coherence

/-!
# The pool is thread-safe

For any threads and any interleaving of their lines, the calls in the order of their
effects are a valid run of the sequential pool, and every call takes effect once, between
its beginning and its return, with the answer that it returns (`threadSafe_of_run`).
What was proved of sequential runs therefore holds of threads. In particular no line of
any thread changes a byte of a block that a client holds (`contents_of_run`).
-/

namespace TorchTest.PoolAlloc.Threads

variable {τ : Type}

namespace Pc

/-- The call that has not taken effect yet. -/
def begun : Pc → Option Op
  | .entry c | .branch c | .system c | .lock c | .locked c => some (.call c)
  | .asking T n | .popping T n _ | .refilling T n => some (.call (.allocate T n))
  | _ => none

/-- The call that has taken effect and is about to return its answer. -/
def ended : Pc → Option (Op × Result)
  | .heading T n chunk _ | .linking T n chunk _ _ _ =>
      some (.call (.allocate T n), checkRet chunk)
  | .pushing T p n => some (.call (.deallocate T p n), .done)
  | .unlocking c r | .leaving c r => some (.call c, r)
  | _ => none

end Pc

/-- What a request answers when `_M_allocate_chunk` returned or threw. -/
def chunkResult : Except Failure (Nat × Nat) → Result
  | .error e => .failed e
  | .ok (chunk, _) => checkRet chunk

namespace State

/-- The call that takes effect in the line that a thread executes, and its answer. -/
def lineEffect (s : State τ) (answer : Option Nat) : Pc → Option (Op × Result)
  | .entry (.allocate T n) =>
      if n = 0 then some (.call (.allocate T n), .returned 0)
      else if Pool.maxSize T < n then some (.call (.allocate T n), .failed .badAlloc)
      else none
  | .entry (.deallocate T p n) =>
      if n ≠ 0 ∧ p ≠ 0 then none else some (.call (.deallocate T p n), .done)
  | .system (.allocate T n) => some (.call (.allocate T n), .ofOption answer)
  | .system (.deallocate T p n) | .locked (.deallocate T p n) =>
      some (.call (.deallocate T p n), .done)
  | .popping T n result => some (.call (.allocate T n), .returned result)
  | .refilling T n =>
      some (.call (.allocate T n),
        chunkResult (Pool.allocateChunk (objSize T n) 20 3 [answer] s.pool).1)
  | _ => none

variable {s s' : State τ} {answer : Option Nat} {c : Call} {r : Result}

theorem lineEffect_of_trivial (trivially : Trivial c r) :
    s.lineEffect answer (.entry c) = some (.call c, r) := by
  cases trivially with
  | nothing T => rw [lineEffect, if_pos rfl]
  | beyond T n positive beyond => exact (if_neg positive).trans (if_pos beyond)
  | null T p n null => exact if_neg (by omega)

theorem lineEffect_of_fits (fits : c.Fits) : s.lineEffect answer (.entry c) = none := by
  cases c with
  | allocate T n =>
    exact (if_neg fits.1).trans (if_neg (mt Pool.maxSize_lt_iff.mp (Nat.not_le.mpr fits.2)))
  | deallocate T p n => exact if_pos fits

/-- A decision is no effect. -/
theorem lineEffect_of_pass (answer : Option Nat) {old pc : Pc} (pass : s.Pass old pc) :
    s.lineEffect answer old = none ∧ old.begun = pc.begun ∧ old.ended = pc.ended := by
  cases pass with
  | undecided T n fits => exact ⟨lineEffect_of_fits fits, rfl, rfl⟩
  | begun c fits => exact ⟨lineEffect_of_fits fits, rfl, rfl⟩
  | large c large => exact ⟨rfl, rfl, rfl⟩
  | small c small => exact ⟨rfl, rfl, rfl⟩

variable [DecidableEq τ]

/-- Calls, effects and returns of the threads. -/
def observer : Observer (State τ) (Event τ) τ Op Result where
  calls _ e :=
    match e with
    | .call t c => [(t, .call c)]
    | .write t a v => [(t, .write a v)]
    | .line _ _ => []
  effects s e :=
    match e with
    | .line t answer => (s.lineEffect answer (s.pc t)).toList.map (t, ·)
    | .write t a v => [(t, .write a v, .done)]
    | .call _ _ => []
  returns s e := (s.step false e).2.toList.map (e.thread, ·)
  begun s t := (s.pc t).begun
  ended s t := (s.pc t).ended

variable {e : Event τ} {t : τ}

/-- A thread goes to another line: what that does to its call. -/
theorem moves_of_goto {pc old : Pc} (pcs : (s.step false e).1.pc = Function.update s.pc t pc)
    (at_t : s.pc t = old) (c : List Op) (f r : List (Op × Result))
    (calls : observer.calls s e = c.map (t, ·)) (effects : observer.effects s e = f.map (t, ·))
    (returns : observer.returns s e = r.map (t, ·))
    (begun : old.begun.toList ++ c = f.map Prod.fst ++ pc.begun.toList)
    (ended : old.ended.toList ++ f = r ++ pc.ended.toList) :
    observer.Moves (step false) s e := by
  have after : (s.step false e).1.pc t = pc := by rw [pcs, Function.update_self]
  refine Observer.moves_of_thread t c f r calls effects returns ?_ ?_ fun u other => ?_
  · simp only [observer, at_t, after]
    exact begun
  · simp only [observer, at_t, after]
    exact ended
  · simp [observer, pcs, Function.update_of_ne other]

/-- Every move takes a call of its thread on by what it does. -/
theorem moves_of_move (move : Move s e s') (stepped : (s.step false e).1 = s') :
    observer.Moves (step false) s e := by
  have line : ∀ {pc old : Pc} {t : τ} {answer : Option Nat}, s'.pc = Function.update s.pc t pc →
      s.pc t = old → e = .line t answer → (∀ c r, old ≠ .leaving c r) →
      ∀ f : Option (Op × Result), s.lineEffect answer old = f →
      old.begun.toList = f.toList.map Prod.fst ++ pc.begun.toList →
      old.ended.toList ++ f.toList = pc.ended.toList → observer.Moves (step false) s e := by
    rintro pc old t answer pcs at_t rfl stays f effect begun ended
    refine moves_of_goto (stepped ▸ pcs) at_t [] f.toList [] rfl ?_ ?_
      ((List.append_nil _).trans begun) ended
    · simp only [observer, at_t, effect]
    · cases old with
      | leaving c r => exact absurd rfl (stays c r)
      | _ => simp [observer, step, at_t]
  cases move with
  | call t c idle held => exact moves_of_goto rfl idle [.call c] [] [] rfl rfl rfl rfl rfl
  | write t a v idle held =>
    refine Observer.moves_of_thread t [.write a v] [(.write a v, .done)] [(.write a v, .done)] rfl
      rfl rfl ?_ ?_ fun u _ => ⟨rfl, rfl⟩
    · simp [observer, step, idle, Pc.begun]
    · simp [observer, step, idle, Pc.ended]
  | pass t answer pc pass =>
    rcases lineEffect_of_pass answer pass with ⟨effect, begun, ended⟩
    refine line rfl rfl rfl (fun c r leaving => ?_) none effect (congrArg _ begun)
      ((List.append_nil _).trans (congrArg _ ended))
    rw [leaving] at pass
    cases pass
  | answer t answer c r entry trivially =>
    exact line rfl entry rfl nofun _ (lineEffect_of_trivial trivially) rfl rfl
  | ask t answer T n asking => exact line rfl asking rfl nofun none rfl rfl rfl
  | obtain t answer T n system => exact line rfl system rfl nofun _ rfl rfl rfl
  | discard t answer T p n system => exact line rfl system rfl nofun _ rfl rfl rfl
  | enter t answer c lock free => exact line rfl lock rfl nofun none rfl rfl rfl
  | empty t answer T n locked empty => exact line rfl locked rfl nofun none rfl rfl rfl
  | head t answer T n result locked head nonzero =>
    exact line rfl locked rfl nofun none rfl rfl rfl
  | store t answer T p n locked => exact line rfl locked rfl nofun _ rfl rfl rfl
  | pop t answer T n result popping => exact line rfl popping rfl nofun _ rfl rfl rfl
  | throw t answer T n e pool refilling thrown =>
    have effect : s.lineEffect answer (.refilling T n) =
        some (.call (.allocate T n), .failed e) := by
      rw [lineEffect, thrown]
      rfl
    exact line rfl refilling rfl nofun _ effect rfl rfl
  | chunk t answer T n chunk nobjs pool refilling found =>
    have effect : s.lineEffect answer (.refilling T n) =
        some (.call (.allocate T n), checkRet chunk) := by
      rw [lineEffect, found]
      rfl
    refine line rfl refilling rfl nofun _ effect ?_ ?_
    · split_ifs <;> rfl
    · split_ifs <;> rfl
  | heads t answer T n chunk nobjs heading => exact line rfl heading rfl nofun none rfl rfl rfl
  | last t answer T n chunk nobjs i obj linking last =>
    exact line rfl linking rfl nofun none rfl rfl rfl
  | turn t answer T n chunk nobjs i obj linking more =>
    exact line rfl linking rfl nofun none rfl rfl rfl
  | push t answer T p n pushing => exact line rfl pushing rfl nofun none rfl rfl rfl
  | unlock t answer c r unlocking => exact line rfl unlocking rfl nofun none rfl rfl rfl
  | leave t answer c r leaving =>
    refine moves_of_goto (congrArg State.pc stepped) leaving [] [] [(.call c, r)] rfl ?_ ?_ rfl rfl
    · simp [observer, leaving, lineEffect]
    · simp [observer, step, leaving, Event.thread]

/-- Every move is a step of the sequential pool, or none. -/
theorem exists_history {q : World} (coh : s.Coherent q) (move : Move s e s')
    (granted : Granted (s'.world.direct ++ s'.pool.regions)) :
    ∃ q', History Serves q (observer.effects s e) q' ∧ s'.Coherent q' := by
  have quiet : ∀ {t : τ} {answer : Option Nat}, e = .line t answer →
      s.lineEffect answer (s.pc t) = none → s'.Coherent q →
      ∃ q', History Serves q (observer.effects s e) q' ∧ s'.Coherent q' := by
    rintro t answer rfl effect coh'
    simp only [observer, effect]
    exact ⟨q, .nil q, coh'⟩
  have served : ∀ {t : τ} {answer : Option Nat} {op : Op} {r : Result}, e = .line t answer →
      s.lineEffect answer (s.pc t) = some (op, r) → (∃ q', Serves q op r q' ∧ s'.Coherent q') →
      ∃ q', History Serves q (observer.effects s e) q' ∧ s'.Coherent q' := by
    rintro t answer op r rfl effect ⟨q', serves, coh'⟩
    simp only [observer, effect]
    exact ⟨q', .single t serves, coh'⟩
  cases move with
  | call t c idle held => exact ⟨q, .nil q, coh.call idle held⟩
  | write t a v idle held =>
    rcases coh.write held granted with ⟨q', serves, coh'⟩
    exact ⟨q', .single t serves, coh'⟩
  | pass t answer pc pass => exact quiet rfl (lineEffect_of_pass answer pass).1 (coh.pass pass)
  | answer t answer c r entry trivially =>
    exact served rfl (entry ▸ lineEffect_of_trivial trivially)
      ⟨q, coh.answered entry trivially granted⟩
  | ask t answer T n asking => exact quiet rfl (by rw [asking]; rfl) (coh.ask asking)
  | obtain t answer T n system =>
    exact served rfl (by rw [system]; rfl) (coh.obtain system granted)
  | discard t answer T p n system =>
    exact served rfl (by rw [system]; rfl) (coh.discard system granted)
  | enter t answer c lock free => exact quiet rfl (by rw [lock]; rfl) (coh.enter lock free)
  | empty t answer T n locked empty =>
    have static := coh.static t
    rw [locked] at static
    exact quiet rfl (by rw [locked]; rfl) (coh.goto_inside (by rw [locked]; rfl) rfl static
      (by rw [locked]; rfl) (by rw [locked]; rfl) empty)
  | head t answer T n result locked head nonzero =>
    have static := coh.static t
    rw [locked] at static
    exact quiet rfl (by rw [locked]; rfl) (coh.goto_inside (by rw [locked]; rfl) rfl static
      (by rw [locked]; rfl) (by rw [locked]; rfl) ⟨head, nonzero⟩)
  | store t answer T p n locked =>
    exact served rfl (by rw [locked]; rfl) (coh.store locked granted)
  | pop t answer T n result popping =>
    exact served rfl (by rw [popping]; rfl) (coh.pop popping granted)
  | throw t answer T n e pool refilling thrown =>
    refine served rfl ?_ (coh.throw refilling thrown granted)
    rw [refilling, lineEffect, thrown]
    rfl
  | chunk t answer T n chunk nobjs pool refilling found =>
    refine served rfl ?_ (coh.chunk refilling found granted)
    rw [refilling, lineEffect, found]
    rfl
  | heads t answer T n chunk nobjs heading =>
    exact quiet rfl (by rw [heading]; rfl) (coh.heads heading)
  | last t answer T n chunk nobjs i obj linking last =>
    exact quiet rfl (by rw [linking]; rfl) (coh.last linking last)
  | turn t answer T n chunk nobjs i obj linking more =>
    exact quiet rfl (by rw [linking]; rfl) (coh.turn linking more)
  | push t answer T p n pushing => exact quiet rfl (by rw [pushing]; rfl) (coh.push pushing)
  | unlock t answer c r unlocking =>
    exact quiet rfl (by rw [unlocking]; rfl) (coh.unlock unlocking)
  | leave t answer c r leaving => exact quiet rfl (by rw [leaving]; rfl) (coh.leave leaving)

omit [DecidableEq τ] in
/-- Before the first call. -/
theorem coherent_init (m : Machine) : (init m : State τ).Coherent (World.init m) where
  valid := ⟨_, World.inv_init m⟩
  live := rfl
  mirror := rfl
  flags _ := le_refl 0
  mutex _ := iff_of_false nofun nofun
  static _ := True.intro
  critical := True.intro
  owned := ⟨_, .init m⟩

/-- Every promised event is a step of the sequential pool, or none. -/
theorem Coherent.advance {q : World} (coh : s.Coherent q) (ok : s.Enabled e ∧ s.SystemOk e) :
    ∃ q', History Serves q (observer.effects s e) q' ∧ (s.step false e).1.Coherent q' :=
  exists_history coh (move_of_enabled ok.1) ok.2

theorem coherent_of_run {m : Machine} {es : List (Event τ)}
    (run : Admissible (step false) (fun s e => s.Enabled e ∧ s.SystemOk e) (init m) es) :
    ∃ q, History Serves (World.init m) (collect (step false) observer.effects (init m) es) q ∧
      (after (step false) (init m) es).Coherent q :=
  run.history (coherent_init m) fun _ _ _ coh ok => coh.advance ok

end State

/-- A history is a valid run of the sequential pool. -/
theorem exists_run {q q' : World} {h : List (τ × Op × Result)} (history : History Serves q h q') :
    ∃ es, Admissible World.step World.Valid q es ∧ after World.step q es = q' ∧
      es.map opOf = h.map (·.2.1) ∧ outputs World.step q es = h.map (·.2.2) := by
  induction history with
  | nil q => exact ⟨[], True.intro, rfl, rfl, rfl⟩
  | cons t first rest ih =>
    rcases first with ⟨e, rfl, valid, stepped⟩
    rcases ih with ⟨es, run, rfl, ops, answers⟩
    refine ⟨e :: es, ⟨valid, ?_⟩, ?_, ?_, ?_⟩
    · rwa [stepped]
    · rw [after_cons, stepped]
    · rw [List.map_cons, List.map_cons, ops]
    · rw [outputs_cons, stepped, List.map_cons, answers]

open State in
/-- For any threads and any interleaving of their lines, the calls and writes in the order
of their effects are a valid run of the sequential pool, with the answers that the threads
get; it ends with the blocks in use and, whenever the mutex is free, with the lists,
remainder and memory of the pool. Every call takes effect once, between its beginning and
its return. -/
theorem threadSafe_of_run [DecidableEq τ] {m : Machine} {es : List (Event τ)}
    (run : Admissible (step false) (fun s e => s.Enabled e ∧ s.SystemOk e) (init m) es) :
    let s := after (step false) (init m) es
    let effects := collect (step false) observer.effects (init m) es
    (∃ es', Admissible World.step World.Valid (World.init m) es' ∧
      es'.map opOf = effects.map (·.2.1) ∧
      outputs World.step (World.init m) es' = effects.map (·.2.2) ∧
      (after World.step (World.init m) es').live = s.inUse ∧
      (s.mutex = none →
        s.pool = (after World.step (World.init m) es').pool.withFlags s.pool.forceNew)) ∧
      observer.Orderly (step false) (init m) es := by
  intro s effects
  constructor
  · rcases coherent_of_run run with ⟨q, history, coh⟩
    rcases exists_run history with ⟨es', valid, rfl, ops, answers⟩
    refine ⟨es', valid, ops, answers, coh.live, fun free => ?_⟩
    have mirror := coh.mirror
    have nobody : s.holder = .idle := by
      rw [holder, free]
      rfl
    rw [nobody] at mirror
    exact mirror
  · refine run.orderly (I := fun s => ∃ q, s.Coherent q) ⟨_, coherent_init m⟩
      (fun _ => ⟨rfl, rfl⟩) (fun s e coherent ok => ?_)
      fun s e _ ok => moves_of_move (move_of_enabled ok.1) rfl
    rcases coherent with ⟨q, coh⟩
    exact (coh.advance ok).imp fun _ both => both.2

open State in
/-- Two threads find `_S_force_new` undecided and both count it down. The second one takes
the mutex first and refills the list; the first one gets what the refill left there. -/
theorem threadSafe_of_run_racing :
    let es : List (Event (Fin 2)) :=
      [.call 0 (.allocate .pair 1), .line 0 none, .call 1 (.allocate .pair 1), .line 1 none,
        .line 0 none, .line 1 none, .line 1 none, .line 0 none, .line 1 none, .line 1 none,
        .line 1 (some 4096)] ++ List.replicate 20 (.line 1 none) ++
      [.line 1 none, .line 0 none, .line 1 none, .write 1 4100 7, .line 0 none, .line 0 none]
    let h : List (Fin 2 × Op × Result) :=
      [(1, .call (.allocate .pair 1), .returned 4096), (1, .write 4100 7, .done),
        (0, .call (.allocate .pair 1), .returned 4112)]
    collect (step false) observer.effects (init .zero) es = h ∧
      ∃ es', Admissible World.step World.Valid (World.init .zero) es' ∧
        es'.map opOf = h.map (·.2.1) ∧ outputs World.step (World.init .zero) es' = h.map (·.2.2) := by
  intro es h
  have effects : collect (step false) observer.effects (init .zero) es = h := by decide +kernel
  have run : Admissible (step false) (fun s e => s.Enabled e ∧ s.SystemOk e) (init .zero) es := by
    decide +kernel
  rcases (threadSafe_of_run run).1 with ⟨es', valid, ops, answers, _⟩
  rw [effects] at ops answers
  exact ⟨effects, es', valid, ops, answers⟩

end TorchTest.PoolAlloc.Threads
