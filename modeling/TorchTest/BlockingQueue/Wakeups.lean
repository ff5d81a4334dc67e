import TorchTest.BlockingQueue.Delivery
import TorchTest.Library.Counting

/-!
# Sleeping consumers and wake-ups

`push` notifies one sleeper for every item. A `pop` woken so takes its item; a
`peek` leaves it in the queue, and passes no notification on. Another sleeper
then stays asleep beside an item with nobody on the way to it
(`stranded_after_peek`).

`Covered` compares the items with the wake-ups in flight: as long as somebody
sleeps, every item in the queue has a notified thread coming for it, or is the
business of the thread inside (`Pc.owes`). Every step keeps it, except a
notified `peek` that takes the mutex while the items outnumber the others
notified; `Sheltered` excludes that step, and `never_stranded_of_run` is what
remains. It is the only step to exclude: from it the monitor can always run into
a stranded state (`stranded_of_unsheltered`).
-/

namespace TorchTest.BlockingQueue

/-- The thread inside will remove an item, or notify for the one it pushed. -/
def Pc.owes {α : Type} : Pc α → Bool
  | .body op | .front op => op.takes
  | .notifying _ | .removing _ _ => true
  | _ => false

variable {τ α : Type}

namespace State

/-- The mutex is free, the queue is not empty, somebody is asleep in
`condition_.wait`, and no notified thread is on its way. -/
def Stranded (s : State τ α) : Prop :=
  s.owner = none ∧ s.queue ≠ [] ∧ (∃ t, (s.pc t).asleep = true) ∧ ∀ t, (s.pc t).notified = false

variable [Fintype τ]

/-- If anybody sleeps, every item has a notified thread or the thread inside to
see to it. -/
def Covered (s : State τ α) : Prop :=
  count Pc.asleep s.pc = 0 ∨ s.queue.length ≤ count Pc.notified s.pc + count Pc.owes s.pc

/-- A notified `peek` takes the mutex again only when nobody sleeps or the other
notified threads are enough for the items. -/
def Sheltered (s : State τ α) : Event τ α → Prop
  | .acquire t => s.pc t = .woken true .peek →
      (∀ u, (s.pc u).asleep = false) ∨ s.queue.length < count Pc.notified s.pc
  | _ => True

instance [DecidableEq τ] [DecidableEq α] (s : State τ α) : ∀ e, Decidable (s.Sheltered e)
  | .acquire t => inferInstanceAs (Decidable (s.pc t = .woken true .peek →
      (∀ u, (s.pc u).asleep = false) ∨ s.queue.length < count Pc.notified s.pc))
  | .call _ _ | .giveUp _ | .line _ | .notify _ _ | .wake _ | .leave _ => isTrue True.intro

variable {s s' : State τ α} {t u : τ} {e : Event τ α}

theorem covered_init : (init : State τ α).Covered :=
  Or.inl (count_eq_zero_iff.mpr fun _ => rfl)

/-- With the mutex free nobody owes anything. -/
theorem Inv.owes_eq_zero (inv : s.Inv) (free : s.owner = none) : count Pc.owes s.pc = 0 := by
  refine count_eq_zero_iff.mpr fun t => ?_
  have outside : (s.pc t).inside = false := by
    rw [Bool.eq_false_iff, ne_eq, inv.mutex, free]
    simp
  cases at_t : s.pc t with
  | body op => simp [at_t, Pc.inside] at outside
  | front op => simp [at_t, Pc.inside] at outside
  | notifying v => simp [at_t, Pc.inside] at outside
  | removing op v => simp [at_t, Pc.inside] at outside
  | _ => rfl

theorem Covered.not_stranded (covered : s.Covered) (inv : s.Inv) : ¬ s.Stranded := by
  rintro ⟨free, some, sleeper, none⟩
  have asleep := count_pos_iff.mpr sleeper
  have items := List.length_pos_of_ne_nil some
  rcases covered with quiet | enough
  · omega
  · rw [inv.owes_eq_zero free, count_eq_zero_iff.mpr none] at enough
    omega

/-- An empty queue needs no wake-up. -/
theorem covered_of_empty (empty : s.queue = []) : s.Covered :=
  Or.inr (by rw [empty]; exact Nat.zero_le _)

variable [DecidableEq τ]

/-- What a thread's going to another line does to the three counts. -/
theorem counts_goto (s' : State τ α) {pc old : Pc α} (pcs : s'.pc = Function.update s.pc t pc)
    (at_t : s.pc t = old) :
    count Pc.asleep s'.pc + old.asleep.toNat = count Pc.asleep s.pc + pc.asleep.toNat ∧
      count Pc.notified s'.pc + old.notified.toNat =
        count Pc.notified s.pc + pc.notified.toNat ∧
      count Pc.owes s'.pc + old.owes.toNat = count Pc.owes s.pc + pc.owes.toNat := by
  rw [pcs, ← at_t]
  exact ⟨count_update .., count_update .., count_update ..⟩

/-- A thread that does not fall asleep keeps the items covered if it leaves as
much promised as it found, for as many items. -/
theorem Covered.goto (covered : s.Covered) {pc old : Pc α}
    (pcs : s'.pc = Function.update s.pc t pc) (at_t : s.pc t = old) (awake : pc.asleep = false)
    (pays : s'.queue.length + (old.notified.toNat + old.owes.toNat) ≤
      s.queue.length + (pc.notified.toNat + pc.owes.toNat)) : s'.Covered := by
  rcases counts_goto _ pcs at_t with ⟨asleep, notified, owes⟩
  rw [awake] at asleep
  unfold Covered at covered ⊢
  rcases covered with quiet | enough
  · rw [quiet] at asleep
    exact Or.inl (Nat.eq_zero_of_add_eq_zero_right asleep)
  · exact Or.inr (by omega)

/-- A thread woken takes the mutex again. -/
theorem Covered.reenter (covered : s.Covered) {notified : Bool} {w : Waiter}
    (woken : s.pc t = .woken notified w) (sheltered : s.Sheltered (.acquire t)) :
    (s.lock t (.wait w)).Covered := by
  rcases counts_goto (s.lock t (.wait w)) rfl woken with ⟨asleep, fewer, owes⟩
  by_cases peeks : notified = true ∧ w = .peek
  · rcases peeks with ⟨rfl, rfl⟩
    rcases sheltered woken with quiet | enough
    · rw [count_eq_zero_iff.mpr quiet] at asleep
      exact Or.inl (Nat.eq_zero_of_add_eq_zero_right asleep)
    · apply Or.inr
      change s.queue.length ≤ _
      simp only [Pc.notified, Bool.toNat_true, Bool.toNat_false] at fewer
      omega
  · refine covered.goto rfl woken rfl (Nat.add_le_add_left ?_ _)
    cases notified with
    | false => exact Nat.zero_le _
    | true =>
      cases w with
      | peek => exact absurd ⟨rfl, rfl⟩ peeks
      | pop => exact le_refl _
      | popLog => exact le_refl _

/-- `notify_one` passes what `push` owed on to a sleeper. -/
theorem Covered.notifyOne (covered : s.Covered) {v : α} {w : Waiter}
    (notifying : s.pc t = .notifying v) (waiting : s.pc u = .waiting w) :
    ((s.goto u (.woken true w)).goto t (.leaving (.push v) .done)).Covered := by
  have other : t ≠ u := by
    rintro rfl
    rw [notifying] at waiting
    cases waiting
  have at_t : (s.goto u (.woken true w)).pc t = .notifying v := by
    simp only [State.goto, Function.update_of_ne other, notifying]
  rcases counts_goto (s.goto u (.woken true w)) rfl waiting with ⟨asleep, notified, owes⟩
  obtain ⟨asleep', notified', owes'⟩ := counts_goto
    ((s.goto u (.woken true w)).goto t (.leaving (.push v) .done)) rfl at_t
  simp only [Pc.asleep, Pc.notified, Pc.owes, Bool.toNat_true, Bool.toNat_false]
    at asleep notified owes asleep' notified' owes'
  rcases covered with quiet | enough
  · omega
  · apply Or.inr
    change s.queue.length ≤ _
    omega

/-- Every sheltered move keeps the items covered. -/
theorem Covered.move (covered : s.Covered) (inv : s.Inv) (move : Move s e s')
    (sheltered : s.Sheltered e) : s'.Covered := by
  cases move with
  | call t op idle => exact covered.goto rfl idle rfl (le_refl _)
  | enter t op entry free =>
    exact covered.goto rfl entry rfl (Nat.add_le_add_left (Nat.zero_le _) _)
  | reenter t notified w woken free => exact covered.reenter woken sheltered
  | giveUp t entry => exact covered.goto rfl entry rfl (le_refl _)
  | push t v body =>
    refine covered.goto rfl body rfl (le_of_eq ?_)
    change (s.queue ++ [v]).length + 0 = s.queue.length + 1
    rw [List.length_append, List.length_singleton]
  | sleep t w body empty => exact covered_of_empty empty
  | log t body empty => exact covered_of_empty empty
  | logged t logging =>
    have stage := inv.stages t
    rw [logging] at stage
    exact covered_of_empty stage
  | present t op body reads some => exact covered.goto rfl body rfl (le_refl _)
  | absent t op body tries empty => exact covered_of_empty empty
  | measure t op body measures =>
    have keeps : op.takes = false := by cases op <;> first | rfl | cases measures
    apply covered.goto rfl body rfl
    simp only [Pc.owes, keeps]
    exact le_refl _
  | take t op v rest front takes content =>
    apply covered.goto rfl front rfl
    simp only [Pc.owes, takes]
    exact le_refl _
  | read t op v rest front keeps content =>
    apply covered.goto rfl front rfl
    simp only [Pc.owes, keeps]
    exact le_refl _
  | remove t op v x rest removing content =>
    refine covered.goto rfl removing rfl (le_of_eq ?_)
    change rest.length + 1 = s.queue.length + 0
    rw [content, List.length_cons]
  | noFront t op front empty => exact covered
  | noPop t op v removing empty => exact covered
  | notifyNone t v notifying none =>
    obtain ⟨asleep, _, _⟩ := counts_goto
      (s.goto t (.leaving (.push v) .done)) rfl notifying
    rw [count_eq_zero_iff.mpr none] at asleep
    exact Or.inl (Nat.eq_zero_of_add_eq_zero_right asleep)
  | notifyOne t u v w notifying waiting => exact covered.notifyOne notifying waiting
  | wake t w waiting => exact covered.goto rfl waiting rfl (le_refl _)
  | leave t op r leaving => exact covered.goto rfl leaving rfl (le_refl _)

/-! ## The excluded step strands a sleeper -/

end State

variable [Fintype τ] [DecidableEq τ]

open State in
/-- In every interleaving whose notified `peek`s are sheltered, no state is
stranded. -/
theorem never_stranded_of_run {es : List (Event τ α)}
    (run : Admissible step (fun s e => s.Enabled e ∧ s.Sheltered e) init es) :
    ¬ (after step init es).Stranded := by
  have both := run.invariant (I := fun s => s.Inv ∧ s.Covered) ⟨inv_init, covered_init⟩
    fun s e ⟨inv, covered⟩ ⟨enabled, sheltered⟩ =>
      ⟨inv.step enabled, covered.move inv (move_of_enabled enabled) sheltered⟩
  exact both.2.not_stranded both.1

open State in
/-- Two sleepers, a `pop` and a `peek`, and two items. -/
theorem never_stranded_of_run_two_items :
    ¬ (after step (init : State (Fin 3) Nat)
      [.call 0 (.wait .pop), .acquire 0, .line 0, .call 1 (.wait .peek), .acquire 1, .line 1,
        .call 2 (.push 7), .acquire 2, .line 2, .notify 2 (some 1), .leave 2,
        .call 2 (.push 8), .acquire 2, .line 2, .notify 2 (some 0), .leave 2,
        .acquire 1, .line 1, .line 1, .leave 1]).Stranded :=
  never_stranded_of_run (by decide +kernel)

open State in
/-- A `pop` and a `peek` sleep, one item is pushed, and the `peek` is notified:
it returns, the item stays, and the `pop` sleeps on. -/
theorem stranded_after_peek :
    let es : List (Event (Fin 3) Nat) :=
      [.call 0 (.wait .pop), .acquire 0, .line 0, .call 1 (.wait .peek), .acquire 1, .line 1,
        .call 2 (.push 7), .acquire 2, .line 2, .notify 2 (some 1), .leave 2,
        .acquire 1, .line 1, .line 1, .leave 1]
    Admissible step Enabled init es ∧ (after step init es).Stranded := by
  refine ⟨by decide +kernel, ?_⟩
  exact ⟨by decide +kernel, by decide +kernel, ⟨0, by decide +kernel⟩, by decide +kernel⟩

end TorchTest.BlockingQueue
