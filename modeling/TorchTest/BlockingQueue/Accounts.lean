import TorchTest.BlockingQueue.Delivery

/-!
# Who gives the items and who gets them

A `push` holds the mutex from the line that appends its item until it returns, and so does a
call that removes one. So what was pushed are the items of the `push` calls that have returned,
in the order of their returns, and the one that is in hand; and what was removed are the items
that calls have returned, in that order, and the one in hand (`accounts_of_run`).
-/

namespace TorchTest.BlockingQueue

variable {τ α : Type}

/-- The item that an answer brings. -/
def Answer.item : Answer α → List α
  | .value v | .found v => [v]
  | _ => []

/-- The item that the call adds to the queue. -/
def Op.gives : Op α → List α
  | .push v => [v]
  | _ => []

/-- The item that the call takes out of the queue and returns. -/
def Op.gets (op : Op α) (r : Answer α) : List α := if op.takes then r.item else []

/-- Added by a call that has not returned yet. -/
def Pc.given : Pc α → List α
  | .notifying v => [v]
  | .leaving op _ => op.gives
  | _ => []

/-- Taken by a call that has not returned yet. -/
def Pc.taken : Pc α → List α
  | .leaving op r => op.gets r
  | _ => []

/-- What a step that ends a call gives. -/
def gives (r : Option (Op α × Answer α)) : List α := r.elim [] fun r => r.1.gives

/-- What a step that ends a call gets. -/
def gets (r : Option (Op α × Answer α)) : List α := r.elim [] fun r => r.1.gets r.2

theorem Op.gets_answer {op : Op α} (takes : op.takes) (v : α) : op.gets (op.answer v) = [v] := by
  rw [gets, if_pos takes]
  cases op with
  | wait w | tryPop => rfl
  | _ => cases takes

theorem Op.gets_keeps {op : Op α} (keeps : op.takes = false) (r : Answer α) : op.gets r = [] := by
  rw [gets, keeps]
  rfl

theorem Op.gives_reads {op : Op α} (reads : op.reads) : op.gives = [] := by
  cases op with
  | push v => cases reads
  | _ => rfl

theorem Op.reads_of_takes {op : Op α} (takes : op.takes) : op.reads := by
  cases op with
  | wait w | tryPop => rfl
  | _ => cases takes

namespace State

/-- What the thread inside has in hand. -/
def hand (s : State τ α) (f : Pc α → List α) : List α := s.owner.elim [] fun t => f (s.pc t)

/-- The items pushed and removed are those of the calls that have returned, and what is in
hand. -/
structure Accounts (s : State τ α) (given taken : List α) : Prop where
  pushed : s.pushed = given ++ s.hand Pc.given
  removed : s.removed = taken ++ s.hand Pc.taken

variable {s s' : State τ α} {t : τ} {e : Event τ α} {given taken : List α} {pc : Pc α}
  {f : Pc α → List α}

theorem hand_of_free (free : s.owner = none) (f : Pc α → List α) : s.hand f = [] := by
  rw [hand, free]
  rfl

theorem hand_of_owner (owner : s.owner = some t) (f : Pc α → List α) : s.hand f = f (s.pc t) := by
  rw [hand, owner]
  rfl

theorem accounts_init : (init : State τ α).Accounts [] [] := ⟨rfl, rfl⟩

variable [DecidableEq τ]

/-- A thread outside has nothing to do with it. -/
theorem Inv.hand_goto (inv : s.Inv) (outside : (s.pc t).inside = false) (pc : Pc α)
    (f : Pc α → List α) : (s.goto t pc).hand f = s.hand f := by
  rcases owner : s.owner with _ | u
  · rw [hand_of_free owner, hand_of_free (s := s.goto t pc) owner]
  · have other : u ≠ t := by
      rintro rfl
      rw [(inv.mutex u).mpr owner] at outside
      cases outside
    rw [hand_of_owner owner, hand_of_owner (s := s.goto t pc) owner]
    exact congrArg f (Function.update_of_ne other ..)

namespace Accounts

/-- A step of a thread that neither was nor gets inside. -/
theorem outside (accounts : s.Accounts given taken) (inv : s.Inv)
    (outside : (s.pc t).inside = false) (pc : Pc α) : (s.goto t pc).Accounts given taken where
  pushed := (inv.hand_goto outside pc Pc.given).symm ▸ accounts.pushed
  removed := (inv.hand_goto outside pc Pc.taken).symm ▸ accounts.removed

/-- A thread takes the mutex. -/
theorem lock (accounts : s.Accounts given taken) (free : s.owner = none) (t : τ) (op : Op α) :
    (s.lock t op).Accounts given taken := by
  have before := hand_of_free free
  have after : ∀ f, (s.lock t op).hand f = f (.body op) := fun f =>
    (hand_of_owner (s := s.lock t op) rfl f).trans (congrArg f (Function.update_self ..))
  constructor
  · rw [after]
    exact accounts.pushed.trans (congrArg _ (before _))
  · rw [after]
    exact accounts.removed.trans (congrArg _ (before _))

omit [DecidableEq τ] in
/-- A line of the thread inside, which may add an item, take one, or return one. -/
theorem inside (accounts : s.Accounts given taken) (inv : s.Inv) {old : Pc α} (at_t : s.pc t = old)
    (inside : old.inside = true) {added removed out out' : List α}
    (hands : ∀ f : Pc α → List α, f .idle = [] → s'.hand f = f pc)
    (pushed : s'.pushed = s.pushed ++ added) (removal : s'.removed = s.removed ++ removed)
    (gives : old.given ++ added = out ++ pc.given)
    (gets : old.taken ++ removed = out' ++ pc.taken) :
    s'.Accounts (given ++ out) (taken ++ out') := by
  subst at_t
  have before := hand_of_owner (inv.owner_eq inside)
  constructor
  · rw [pushed, accounts.pushed, before, hands _ rfl, List.append_assoc, List.append_assoc, gives]
  · rw [removal, accounts.removed, before, hands _ rfl, List.append_assoc, List.append_assoc, gets]

omit [DecidableEq τ] in
/-- A line that adds, takes and returns nothing. -/
theorem stays (accounts : s.Accounts given taken) (inv : s.Inv) {old : Pc α} (at_t : s.pc t = old)
    (inside : old.inside = true)
    (hands : ∀ f : Pc α → List α, f .idle = [] → s'.hand f = f pc) (pushed : s'.pushed = s.pushed)
    (removed : s'.removed = s.removed) (given_eq : old.given = pc.given)
    (taken_eq : old.taken = pc.taken) : s'.Accounts (given ++ []) (taken ++ []) :=
  accounts.inside inv at_t inside hands (pushed.trans (List.append_nil _).symm)
    (removed.trans (List.append_nil _).symm) ((List.append_nil _).trans given_eq)
    ((List.append_nil _).trans taken_eq)

end Accounts

/-- What is in hand where the thread inside goes on. -/
theorem Inv.hand_inside (inv : s.Inv) {old : Pc α} (at_t : s.pc t = old)
    (inside : old.inside = true) (pcs : s'.pc = Function.update s.pc t pc)
    (owner : s'.owner = s.owner) : ∀ f : Pc α → List α, f .idle = [] → s'.hand f = f pc := by
  intro f _
  subst at_t
  rw [hand_of_owner (owner.trans (inv.owner_eq inside)), pcs, Function.update_self]

omit [DecidableEq τ] in
/-- Nothing is in hand once the mutex is given up. -/
theorem hand_released (free : s'.owner = none) :
    ∀ f : Pc α → List α, f .idle = [] → s'.hand f = f .idle :=
  fun f idle => (hand_of_free free f).trans idle.symm

/-- Every step keeps the accounts. -/
theorem Accounts.move (accounts : s.Accounts given taken) (inv : s.Inv) (move : Move s e s') :
    s'.Accounts (given ++ gives (s.step e).2) (taken ++ gets (s.step e).2) := by
  have same : s.Accounts (given ++ []) (taken ++ []) := by
    rw [List.append_nil, List.append_nil]
    exact accounts
  cases move with
  | call t op idle => exact same.outside inv (by rw [idle]; rfl) _
  | enter t op entry free =>
    have quiet : (s.step (.acquire t)).2 = none := by simp only [step, entry]
    rw [quiet]
    exact same.lock free t op
  | reenter t notified w woken free =>
    have quiet : (s.step (.acquire t)).2 = none := by simp only [step, woken]
    rw [quiet]
    exact same.lock free t _
  | giveUp t entry => exact same.outside inv (by rw [entry]; rfl) _
  | push t v body =>
    exact accounts.inside inv body rfl (inv.hand_inside body rfl rfl rfl) rfl
      (List.append_nil _).symm rfl rfl
  | sleep t w body empty =>
    exact accounts.stays inv body rfl (hand_released rfl) rfl rfl rfl rfl
  | log t body empty =>
    exact accounts.stays inv body rfl (inv.hand_inside body rfl rfl rfl) rfl rfl rfl rfl
  | logged t logging =>
    exact accounts.stays inv logging rfl (hand_released rfl) rfl rfl rfl rfl
  | present t op body reads some =>
    exact accounts.stays inv body rfl (inv.hand_inside body rfl rfl rfl) rfl rfl rfl rfl
  | absent t op body tries empty =>
    refine accounts.stays inv body rfl (inv.hand_inside body rfl rfl rfl) rfl rfl ?_ ?_
    · cases op with
      | tryPop | tryPeek => rfl
      | _ => cases tries
    · cases op with
      | tryPop | tryPeek => rfl
      | _ => cases tries
  | measure t op body measures =>
    refine accounts.stays inv body rfl (inv.hand_inside body rfl rfl rfl) rfl rfl ?_ ?_
    · cases op with
      | size | nonblockingSize => rfl
      | _ => cases measures
    · cases op with
      | size | nonblockingSize => rfl
      | _ => cases measures
  | take t op v rest front takes content =>
    exact accounts.stays inv front rfl (inv.hand_inside front rfl rfl rfl) rfl rfl rfl rfl
  | read t op v rest front keeps content =>
    have stage := inv.stages t
    rw [front] at stage
    exact accounts.stays inv front rfl (inv.hand_inside front rfl rfl rfl) rfl rfl
      (Op.gives_reads stage.1).symm (Op.gets_keeps keeps _).symm
  | remove t op v x rest removing content =>
    have stage := inv.stages t
    rw [removing] at stage
    obtain ⟨takes, head⟩ := stage
    have same : x = v := by
      rw [content] at head
      exact Option.some.inj head
    subst same
    exact accounts.inside inv removing rfl (inv.hand_inside removing rfl rfl rfl)
      (List.append_nil _).symm rfl (Op.gives_reads (Op.reads_of_takes takes)).symm
      (Op.gets_answer takes x).symm
  | noFront t op front empty =>
    have stage := inv.stages t
    rw [front] at stage
    exact absurd empty stage.2
  | noPop t op v removing empty =>
    have stage := inv.stages t
    rw [removing, StageOk, empty] at stage
    cases stage.2
  | notifyNone t v notifying none =>
    have quiet : (s.step (.notify t Option.none)).2 = Option.none := by simp only [step, notifying]
    rw [quiet]
    exact accounts.stays inv notifying rfl (inv.hand_inside notifying rfl rfl rfl) rfl rfl rfl rfl
  | notifyOne t u v w notifying waiting =>
    have quiet : (s.step (.notify t (some u))).2 = Option.none := by
      simp only [step, notifying, waiting]
    have woken : (s.goto u (.woken true w)).Inv := inv.goto (by rw [waiting]; rfl) True.intro
    have other : t ≠ u := by
      rintro rfl
      rw [notifying] at waiting
      cases waiting
    have at_t : (s.goto u (.woken true w)).pc t = .notifying v :=
      (Function.update_of_ne other ..).trans notifying
    rw [quiet]
    exact (accounts.outside inv (by rw [waiting]; rfl) _).stays woken at_t rfl
      (woken.hand_inside at_t rfl rfl rfl) rfl rfl rfl rfl
  | wake t w waiting =>
    have quiet : (s.step (.wake t)).2 = none := by simp only [step, waiting]
    rw [quiet]
    exact same.outside inv (by rw [waiting]; rfl) _
  | leave t op r leaving =>
    have ends : (s.step (.leave t)).2 = some (op, r) := by simp only [step, leaving]
    rw [ends]
    exact accounts.inside inv leaving rfl (hand_released rfl) (List.append_nil _).symm
      (List.append_nil _).symm rfl rfl

end State

variable [DecidableEq τ]

open State in
/-- For any threads and any interleaving, the items pushed are those of the `push` calls that
have returned, in the order of their returns, and the items removed are those that calls have
returned, in that order; the thread inside may have one more in hand. -/
theorem accounts_of_run {es : List (Event τ α)} (run : Admissible step Enabled init es) :
    let rs := outputs step (init : State τ α) es
    (after step init es).Accounts (rs.flatMap gives) (rs.flatMap gets) := by
  have whole : ∀ (es : List (Event τ α)) (s : State τ α) (given taken : List α), s.Inv →
      s.Accounts given taken → Admissible step Enabled s es →
      (after step s es).Accounts (given ++ (outputs step s es).flatMap gives)
        (taken ++ (outputs step s es).flatMap gets) := by
    intro es
    induction es with
    | nil =>
      intro s given taken _ accounts _
      simpa using accounts
    | cons e es ih =>
      intro s given taken inv accounts run
      have first := accounts.move inv (move_of_enabled run.1)
      have rest := ih _ _ _ (inv.step run.1) first run.2
      simpa only [outputs_cons, List.flatMap_cons, List.append_assoc, after_cons] using rest
  exact whole es init [] [] inv_init accounts_init run

end TorchTest.BlockingQueue
