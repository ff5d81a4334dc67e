import TorchTest.PoolAlloc.ThreadSafety

/-!
# The contents of held blocks

A block that a client holds belongs to it alone, whatever the other threads are doing: it
meets no other held block, and from the return of the request that got it to the call that
gives it back, its bytes are what its client last wrote (`contents_of_run`).
-/

namespace TorchTest.PoolAlloc

/-- Two live blocks do not overlap. -/
theorem World.Inv.separate_live {w : World} {A : Arena} {b d : Block} (inv : w.Inv A)
    (live : b ∈ w.live) (other : d ∈ w.live) (different : d ≠ b) : b.span.Separate d.span := by
  by_cases pooled : b.Pooled
  · exact span_separate inv.ledger inv.system live pooled other different
  by_cases small : d.Pooled
  · exact (span_separate inv.ledger inv.system other small live different.symm).symm
  have apart := List.pairwise_map.mp (List.pairwise_append.mp inv.system.apart).1
  have symmetric : Std.Symm fun b d : Block => b.span.Apart d.span := ⟨fun _ _ apart => apart.symm⟩
  have member : b ∈ w.live.filter (¬·.Pooled) := List.mem_filter.mpr ⟨live, decide_eq_true pooled⟩
  have member' : d ∈ w.live.filter (¬·.Pooled) := List.mem_filter.mpr ⟨other, decide_eq_true small⟩
  exact (apart.forall member member' different.symm).separate

namespace Threads

namespace State

variable {τ : Type} {s s' : State τ} {q q' : World} {b : Block}

theorem Coherent.used (coh : s.Coherent q) (held : b ∈ s.held) : b ∈ s.inUse := by
  rcases coh.owned with ⟨place, owned⟩
  rw [owned.inUse, (owned.held b).mp held]
  nofun

/-- A thread at a line makes no write take effect. -/
theorem lineEffect_isCall {answer : Option Nat} {pc : Pc} {op : Op} {r : Result}
    (effect : s.lineEffect answer pc = some (op, r)) : ∃ c, op = .call c := by
  cases pc with
  | entry c => cases c <;> grind [lineEffect]
  | system c => cases c <;> grind [lineEffect]
  | locked c => cases c <;> grind [lineEffect]
  | _ => grind [lineEffect]

/-- A call that takes effect changes no byte of a block that stays in use. -/
theorem Coherent.agree_serves (coh : s.Coherent q) (coh' : s'.Coherent q') {c : Call} {r : Result}
    (serves : Serves q (.call c) r q') (used : b ∈ s.inUse) (used' : b ∈ s'.inUse) :
    Machine.AgreeOn b.span q.pool.machine q'.pool.machine := by
  rcases serves with ⟨e, same, valid, stepped⟩
  rcases coh.valid with ⟨A, inv⟩
  have call : e.IsCall := by
    cases e with
    | write a v => cases same
    | _ => exact True.intro
  have kept : e ≠ .deallocate b.type b.ptr b.count := by
    rintro rfl
    have live : q.live.erase b = q'.live := congrArg (fun w => w.1.live) stepped
    rw [← coh'.live, ← live, inv.nodup_live.mem_erase_iff] at used'
    exact used'.1 rfl
  have frame := inv.step_frame valid call (coh.live ▸ used) kept
  rwa [stepped] at frame

variable [DecidableEq τ] {e : Event τ} {t : τ} {es es' : List (Event τ)}

/-- No line of any thread changes a byte of a held block. -/
theorem Coherent.agree_line (coh : s.Coherent q) {answer : Option Nat}
    (ok : s.Enabled (.line t answer) ∧ s.SystemOk (.line t answer)) (held : b ∈ s.held)
    (held' : b ∈ (s.step false (.line t answer)).1.held) :
    Machine.AgreeOn b.span s.pool.machine (s.step false (.line t answer)).1.pool.machine := by
  rcases coh.advance ok with ⟨q', history, coh'⟩
  have before := coh.agree (coh.used held)
  have later := coh'.agree (coh'.used held')
  have same : Machine.AgreeOn b.span q.pool.machine q'.pool.machine := by
    simp only [observer] at history
    cases effect : s.lineEffect answer (s.pc t) with
    | none =>
      rw [effect] at history
      cases history
      exact .refl _ _
    | some x =>
      rcases x with ⟨op, r⟩
      rcases lineEffect_isCall effect with ⟨c, rfl⟩
      rw [effect] at history
      rcases history with _ | ⟨_, serves, _ | _⟩
      exact coh.agree_serves coh' serves (coh.used held) (coh'.used held')
  exact fun x inside =>
    ((later x inside).symm.trans (same x inside)).trans (before x inside)

/-- A held block is still held after a line of any thread. -/
theorem held_line {answer : Option Nat} (enabled : s.Enabled (.line t answer))
    (held : b ∈ s.held) : b ∈ (s.step false (.line t answer)).1.held := by
  have move := move_of_enabled enabled
  generalize (s.step false (.line t answer)).1 = s' at move ⊢
  cases move with
  | leave _ _ c r => exact List.mem_append_right _ held
  | _ => exact held

/-- A block stays held, with its bytes, over a step that neither gives it back nor writes
into it. -/
theorem Coherent.keeps (coh : s.Coherent q) (ok : s.Enabled e ∧ s.SystemOk e) (held : b ∈ s.held)
    (kept : ∀ t, e ≠ .call t (.deallocate b.type b.ptr b.count)) :
    b ∈ (s.step false e).1.held ∧ ∀ a ∈ b.span, (∀ t v, e ≠ .write t a v) →
      (s.step false e).1.pool.machine.mem a = s.pool.machine.mem a := by
  cases e with
  | call t c =>
    refine ⟨?_, fun _ _ _ => rfl⟩
    cases given : c.block with
    | none => simpa [State.step, given] using held
    | some d =>
      have other : b ≠ d := by
        rintro rfl
        cases c with
        | allocate T n => cases given
        | deallocate T p n =>
          simp only [Call.block, Option.ite_none_left_eq_some, Option.some.injEq] at given
          rcases given with ⟨_, rfl⟩
          exact kept t rfl
      simpa [State.step, given] using (List.mem_erase_of_ne other).mpr held
  | line t answer =>
    have held' := held_line ok.1 held
    exact ⟨held', fun a inside _ => coh.agree_line ok held held' a inside⟩
  | write t a' v =>
    refine ⟨held, fun a _ unwritten => Mem.setByte_other _ v ?_⟩
    rintro rfl
    exact unwritten t v rfl

/-- The same over a run. -/
theorem Coherent.keeps_of_run (coh : s.Coherent q)
    (run : Admissible (step false) (fun s e => s.Enabled e ∧ s.SystemOk e) s es) (held : b ∈ s.held)
    (kept : ∀ t, .call t (.deallocate b.type b.ptr b.count) ∉ es) :
    b ∈ (after (step false) s es).held ∧ ∀ a ∈ b.span, (∀ t v, .write t a v ∉ es) →
      (after (step false) s es).pool.machine.mem a = s.pool.machine.mem a := by
  induction es generalizing s q with
  | nil => exact ⟨held, fun _ _ _ => rfl⟩
  | cons e es ih =>
    simp only [List.mem_cons, not_or] at kept
    rcases coh.advance run.1 with ⟨q', _, coh'⟩
    rcases coh.keeps run.1 held fun t => Ne.symm (kept t).1 with ⟨held', first⟩
    rcases ih coh' run.2 held' fun t => (kept t).2 with ⟨final, rest⟩
    refine ⟨final, fun a inside unwritten => ?_⟩
    simp only [List.mem_cons, not_or] at unwritten
    rw [after_cons, rest a inside fun t v => (unwritten t v).2,
      first a inside fun t v => Ne.symm (unwritten t v).1]

/-- Clients hold no block twice. One that they hold meets no other, and as long as it is not
given back, no line of any thread changes a byte of it: only a client's write does. -/
theorem contents_of_run {m : Machine}
    (run : Admissible (step false) (fun s e => s.Enabled e ∧ s.SystemOk e) (init m) (es ++ es'))
    (held : b ∈ (after (step false) (init m) es).held)
    (kept : ∀ t, .call t (.deallocate b.type b.ptr b.count) ∉ es') :
    let s := after (step false) (init m) es
    let s' := after (step false) (init m) (es ++ es')
    b ∈ s'.held ∧ s'.held.Nodup ∧ (∀ d ∈ s'.held, d ≠ b → b.span.Separate d.span) ∧
      ∀ a ∈ b.span, (∀ t v, .write t a v ∉ es') →
        s'.pool.machine.mem a = s.pool.machine.mem a := by
  intro s s'
  rcases coherent_of_run run with ⟨q', _, coh'⟩
  rcases coherent_of_run (admissible_append.mp run).1 with ⟨q, _, coh⟩
  rcases coh.keeps_of_run (admissible_append.mp run).2 held kept with ⟨held', same⟩
  rw [← after_append] at held' same
  rcases coh'.owned with ⟨_, owned⟩
  refine ⟨held', owned.nodup, fun d other different => ?_, same⟩
  rcases coh'.valid with ⟨A, inv⟩
  exact inv.separate_live (coh'.live ▸ coh'.used held') (coh'.live ▸ coh'.used other) different

/-- A thread keeps a block with a byte of its own while another one gets the block behind
it and gives it back. -/
theorem contents_of_run_neighbour :
    let es : List (Event (Fin 2)) :=
      [.call 0 (.allocate .pair 1), .line 0 none, .line 0 none, .line 0 none, .line 0 none,
        .line 0 none, .line 0 (some 4096)] ++ List.replicate 22 (.line 0 none) ++
      [.write 0 4100 7]
    let es' : List (Event (Fin 2)) :=
      .call 1 (.allocate .pair 1) :: List.replicate 7 (.line 1 none) ++
      .call 1 (.deallocate .pair 4112 1) :: List.replicate 7 (.line 1 none)
    (after (step false) (init .zero) (es ++ es')).pool.machine.mem 4100 = 7 := by
  intro es es'
  have run : Admissible (step false) (fun s e => s.Enabled e ∧ s.SystemOk e) (init .zero)
      (es ++ es') := by decide +kernel
  have kept := contents_of_run (b := ⟨.pair, 1, 4096⟩) run (by decide +kernel) (by decide +kernel)
  exact (kept.2.2.2 4100 (by decide) fun t v => by simp [es']).trans (by decide +kernel)

end State

end Threads

end TorchTest.PoolAlloc
