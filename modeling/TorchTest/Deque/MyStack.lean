import TorchTest.Deque.Refinement

/-!
# `MyStack`

The stack of `c++/demo/my_stack.cpp`, over a `std::deque`. `pop` and `top` look first whether
there is an element, and throw `ReadEmptyStack` otherwise, so callers need not.

`pop` copies the last element, removes it and returns the copy. The first copy may throw, and
the stack is then as before. Where the compiler does not construct `elem` in place of the
return value, the return value is constructed from it, and that may throw too: then the
element is gone.
-/

namespace TorchTest.MyStack

open Deque (ElemType Env Represents)

/-- `ReadEmptyStack::what()`. -/
def readEmptyStack : String := "read empty stack"

/-- Whether the copy of the element returns, and the construction of the return value. -/
structure Copies where
  elem : Bool
  returned : Bool
  deriving DecidableEq, Repr

/-- The member functions, and an assignment to what `top` returns. -/
inductive Event (α : Type)
  | push (v : α) (env : Env)
  | pop (copies : Copies)
  | top
  | setTop (v : α)
  | size
  | empty
  deriving DecidableEq, Repr

/-- What the caller sees. An exception other than those of the allocator and of the element
comes with its text. -/
inductive Result (α : Type)
  | done
  | badAlloc
  | threw
  | exception (what : String)
  | value (v : α)
  | element (a : Nat) (v : α)
  | number (n : Nat)
  | flag (b : Bool)
  | faulted (f : Deque.Fault)
  deriving DecidableEq, Repr

variable {α : Type} (T : ElemType)

/-- How `push_back` ends is how `push` does. -/
def ofOutcome : Deque.Outcome → Result α
  | .done => .done
  | .badAlloc => .badAlloc
  | .threw => .threw

/-- One call, `c_` being the deque. -/
def run (c_ : Deque α) : Event α → Except Deque.Fault (Deque α × Result α)
  | .push v env => do
      let (c_, outcome) ← c_.pushBack T v env
      return (c_, ofOutcome outcome)
  | .pop copies =>
      if c_.empty then .ok (c_, .exception readEmptyStack)
      else do
        let a ← c_.back T
        let elem ← c_.read a
        if copies.elem then
          let c_ ← c_.popBack T
          return (c_, if copies.returned then .value elem else .threw)
        else return (c_, .threw)
  | .top =>
      if c_.empty then .ok (c_, .exception readEmptyStack)
      else do
        let a ← c_.back T
        let v ← c_.read a
        return (c_, .element a v)
  | .setTop v =>
      if c_.empty then .ok (c_, .exception readEmptyStack)
      else do
        let a ← c_.back T
        let c_ ← c_.assign a v
        return (c_, .done)
  | .size => .ok (c_, .number (c_.size T).toNat)
  | .empty => .ok (c_, .flag c_.empty)

/-- One call; the state does not matter after a fault. -/
def step (c_ : Deque α) (e : Event α) : Deque α × Result α :=
  match run T c_ e with
  | .ok out => out
  | .error f => (c_, .faulted f)

/-- What the system answers: a new node is apart from those there are. The callers promise
nothing. -/
def Answered (c_ : Deque α) : Event α → Prop
  | .push _ env => Deque.NodeFresh T c_ env.node
  | _ => True

instance (c_ : Deque α) : ∀ e, Decidable (Answered T c_ e)
  | .push _ env => inferInstanceAs (Decidable (Deque.NodeFresh T c_ env.node))
  | .pop _ | .top | .setTop _ | .size | .empty => inferInstanceAs (Decidable True)

/-- What a call does to a stack of elements with their addresses, the top first. -/
inductive Serves : List (Nat × α) → Event α → Result α → List (Nat × α) → Prop
  | push {xs : List (Nat × α)} {a : Nat} {v : α} {env : Env} (copied : env.copy = true)
      (new : a ∉ xs.map Prod.fst) : Serves xs (.push v env) .done ((a, v) :: xs)
  | badAlloc {xs : List (Nat × α)} {v : α} {env : Env}
      (refused : env.map = false ∨ env.node = none) : Serves xs (.push v env) .badAlloc xs
  | threw {xs : List (Nat × α)} {v : α} {env : Env} (refused : env.copy = false) :
      Serves xs (.push v env) .threw xs
  | pop {xs : List (Nat × α)} {x : Nat × α} :
      Serves (x :: xs) (.pop ⟨true, true⟩) (.value x.2) xs
  | lost {xs : List (Nat × α)} {x : Nat × α} : Serves (x :: xs) (.pop ⟨true, false⟩) .threw xs
  | kept {xs : List (Nat × α)} {x : Nat × α} {returned : Bool} :
      Serves (x :: xs) (.pop ⟨false, returned⟩) .threw (x :: xs)
  | top {xs : List (Nat × α)} {x : Nat × α} :
      Serves (x :: xs) .top (.element x.1 x.2) (x :: xs)
  | setTop {xs : List (Nat × α)} {a : Nat} {v w : α} :
      Serves ((a, v) :: xs) (.setTop w) .done ((a, w) :: xs)
  | popEmpty {copies : Copies} : Serves [] (.pop copies) (.exception readEmptyStack) []
  | topEmpty : Serves [] .top (.exception readEmptyStack) []
  | setTopEmpty {v : α} : Serves [] (.setTop v) (.exception readEmptyStack) []
  | size {xs : List (Nat × α)} : Serves xs .size (.number xs.length) xs
  | empty {xs : List (Nat × α)} : Serves xs .empty (.flag xs.isEmpty) xs

variable {T} {c_ c' : Deque α} {xs : List (Nat × α)} {e : Event α} {r : Result α}

/-- The stack has the elements `xs`, the top first. -/
def Stacks (T : ElemType) (c_ : Deque α) (xs : List (Nat × α)) : Prop :=
  Represents T c_ xs.reverse

theorem step_of_run (ran : run T c_ e = .ok (c', r)) : step T c_ e = (c', r) := by
  rw [step, ran]

theorem Stacks.empty_iff (stacked : Stacks T c_ xs) : c_.empty = true ↔ xs = [] := by
  obtain ⟨L, rep⟩ := stacked
  rw [rep.empty_iff, List.reverse_eq_nil_iff]

/-- What a call serves, and what it leaves. -/
def Answers (T : ElemType) (c_ : Deque α) (xs : List (Nat × α)) (e : Event α) : Prop :=
  ∃ c' r xs', run T c_ e = .ok (c', r) ∧ Serves xs e r xs' ∧ Stacks T c' xs'

namespace Stacks

/-- What `back()` gives. -/
theorem back {x : Nat × α} (stacked : Stacks T c_ (x :: xs)) :
    c_.empty = false ∧ c_.back T = .ok x.1 ∧ c_.read x.1 = .ok x.2 := by
  have some : c_.empty = false :=
    Bool.eq_false_iff.mpr (stacked.empty_iff.not.mpr (List.cons_ne_nil x xs))
  obtain ⟨L, rep⟩ := stacked
  rw [List.reverse_cons] at rep
  exact ⟨some, rep.back_eq,
    rep.read_eq (List.mem_append_right _ (List.mem_singleton_self x))⟩

/-- What `pop_back()` leaves. -/
theorem popBack {x : Nat × α} (stacked : Stacks T c_ (x :: xs)) :
    ∃ c', c_.popBack T = .ok c' ∧ Stacks T c' xs := by
  obtain ⟨L, rep⟩ := stacked
  rw [List.reverse_cons] at rep
  obtain ⟨c', L', popped, rep', _⟩ := rep.popBack
  exact ⟨c', popped, L', rep'⟩

theorem answers_push (stacked : Stacks T c_ xs) {v : α} {env : Env}
    (fresh : Deque.NodeFresh T c_ env.node) : Answers T c_ xs (.push v env) := by
  obtain ⟨L, rep⟩ := stacked
  obtain ⟨_, c', o, pushed, added, _⟩ := rep.pushBack v fresh
  have ran : run T c_ (.push v env) = .ok (c', ofOutcome o) := by
    rw [run, pushed]
    rfl
  rcases added with ⟨rfl, copied, a, L', new, rep'⟩ | ⟨rep', ⟨rfl, refused⟩ | ⟨rfl, refused⟩⟩
  · rw [List.map_reverse, List.mem_reverse] at new
    refine ⟨c', .done, (a, v) :: xs, ran, .push copied new, L', ?_⟩
    rwa [List.reverse_cons]
  · exact ⟨c', .badAlloc, xs, ran, .badAlloc refused, rep'⟩
  · exact ⟨c', .threw, xs, ran, .threw refused, rep'⟩

theorem answers_pop (stacked : Stacks T c_ xs) (copies : Copies) :
    Answers T c_ xs (.pop copies) := by
  cases xs with
  | nil =>
    have none := stacked.empty_iff.mpr rfl
    exact ⟨c_, _, [], by rw [run, if_pos none], .popEmpty, stacked⟩
  | cons x xs =>
    obtain ⟨some, last, read⟩ := stacked.back
    obtain ⟨c', popped, stacked'⟩ := stacked.popBack
    have begun : run T c_ (.pop copies) = if copies.elem then
        .ok (c', if copies.returned then .value x.2 else .threw) else .ok (c_, .threw) := by
      rw [run, some]
      simp only [Bool.false_eq_true, if_false, last, read, popped, Deque.ok_bind]
      rfl
    rcases copies with ⟨_ | _, returned⟩
    · exact ⟨c_, .threw, x :: xs, begun, .kept, stacked⟩
    · rcases returned with _ | _
      · exact ⟨c', .threw, xs, begun, .lost, stacked'⟩
      · exact ⟨c', .value x.2, xs, begun, .pop, stacked'⟩

theorem answers_top (stacked : Stacks T c_ xs) : Answers T c_ xs .top := by
  cases xs with
  | nil =>
    have none := stacked.empty_iff.mpr rfl
    exact ⟨c_, _, [], by rw [run, if_pos none], .topEmpty, stacked⟩
  | cons x xs =>
    obtain ⟨some, last, read⟩ := stacked.back
    refine ⟨c_, .element x.1 x.2, x :: xs, ?_, .top, stacked⟩
    rw [run, some]
    simp only [Bool.false_eq_true, if_false, last, read, Deque.ok_bind]
    rfl

theorem answers_setTop (stacked : Stacks T c_ xs) (w : α) : Answers T c_ xs (.setTop w) := by
  cases xs with
  | nil =>
    have none := stacked.empty_iff.mpr rfl
    exact ⟨c_, _, [], by rw [run, if_pos none], .setTopEmpty, stacked⟩
  | cons x xs =>
    obtain ⟨some, last, _⟩ := stacked.back
    obtain ⟨L, rep⟩ := stacked
    rw [List.reverse_cons] at rep
    have here : (xs.reverse ++ [x])[xs.reverse.length]? = Option.some (x.1, x.2) := by
      rw [List.getElem?_append_right le_rfl, Nat.sub_self]
      rfl
    obtain ⟨assigned, rep'⟩ := rep.assign here w
    refine ⟨c_.withObj x.1 (Option.some w), .done, (x.1, w) :: xs, ?_, .setTop, L, ?_⟩
    · rw [run, some]
      simp only [Bool.false_eq_true, if_false, last, assigned, Deque.ok_bind]
      rfl
    · rw [List.set_append_right _ _ le_rfl, Nat.sub_self] at rep'
      rwa [List.reverse_cons]

/-- Every call gives what it gives on a stack. -/
theorem answers (stacked : Stacks T c_ xs) (answered : Answered T c_ e) :
    Answers T c_ xs e := by
  cases e with
  | push v env => exact stacked.answers_push answered
  | pop copies => exact stacked.answers_pop copies
  | top => exact stacked.answers_top
  | setTop w => exact stacked.answers_setTop w
  | size =>
    obtain ⟨L, rep⟩ := stacked
    refine ⟨c_, .number xs.length, xs, ?_, .size, L, rep⟩
    rw [run, rep.size_eq, Int.toNat_natCast, List.length_reverse]
  | empty =>
    have flag : c_.empty = xs.isEmpty := by
      rw [Bool.eq_iff_iff, stacked.empty_iff, List.isEmpty_iff]
    exact ⟨c_, .flag xs.isEmpty, xs, by rw [run, flag], .empty, stacked⟩

theorem step (stacked : Stacks T c_ xs) (answered : Answered T c_ e) :
    ∃ xs', Serves xs e (MyStack.step T c_ e).2 xs' ∧ Stacks T (MyStack.step T c_ e).1 xs' := by
  obtain ⟨c', r, xs', ran, serves, stacked'⟩ := stacked.answers answered
  rw [step_of_run ran]
  exact ⟨xs', serves, stacked'⟩

end Stacks

/-- No call does what is undefined. -/
theorem Serves.not_faulted {xs' : List (Nat × α)} (serves : Serves xs e r xs') (f : Deque.Fault) :
    r ≠ .faulted f := by
  intro faulted
  cases serves <;> cases faulted

/-- Whatever is called on a new stack, and whatever the allocator and the elements answer: the
results are those of a stack, which throws `ReadEmptyStack` where it is empty; no call does
what is undefined; the elements are the objects there are, each where it was pushed; and the
destructor leaves neither objects nor nodes. -/
theorem lifo_of_run {p : Nat} {es : List (Event α)} (created : Deque.create T p = .ok c_)
    (run : Admissible (MyStack.step T) (Answered T) c_ es) :
    let c' := after (MyStack.step T) c_ es
    ∃ xs, Replays Serves [] es (outputs (MyStack.step T) c_ es) xs ∧
      (∀ a v, c'.objs a = some v ↔ (a, v) ∈ xs) ∧
      (∀ r ∈ outputs (MyStack.step T) c_ es, ∀ f, r ≠ .faulted f) ∧
      c'.dtor T = .ok ([], fun _ => none) := by
  intro c'
  have start : Stacks T c_ [] := Deque.represents_create created
  rcases run.replays (R := Stacks T) start (fun c_ xs e stacked answered =>
    stacked.step answered) with ⟨xs, replays, final⟩
  have faultless := run.forall_outputs (I := fun c_ => ∃ xs, Stacks T c_ xs)
    (P := fun r => ∀ f, r ≠ .faulted f) ⟨[], start⟩
    (fun c_ e some answered => by
      obtain ⟨xs, stacked⟩ := some
      obtain ⟨xs', _, stacked'⟩ := stacked.step answered
      exact ⟨xs', stacked'⟩)
    (fun c_ e some answered f => by
      obtain ⟨xs, stacked⟩ := some
      obtain ⟨xs', serves, _⟩ := stacked.step answered
      exact serves.not_faulted f)
  refine ⟨xs, replays, fun a v => ?_, faultless, ?_⟩
  · exact (final.objs a v).trans List.mem_reverse
  · obtain ⟨L, rep⟩ := final
    exact rep.dtor

/-- The calls of the test, and two that may lose an element. -/
theorem lifo_of_run_sample :
    let T : ElemType := ⟨4, by decide⟩
    let c_ : Deque Nat := .initial T 4096
    let es : List (Event Nat) :=
      [.push 1 ⟨false, none, true⟩, .push 2 ⟨false, none, true⟩, .pop ⟨true, true⟩,
        .pop ⟨false, true⟩, .top, .pop ⟨true, true⟩, .pop ⟨true, true⟩,
        .push 3 ⟨false, none, true⟩, .pop ⟨true, false⟩, .size]
    ∃ xs, Replays Serves [] es
        [.done, .done, .value 2, .threw, .element 4096 1, .value 1,
          .exception "read empty stack", .done, .threw, .number 0] xs ∧
      (after (MyStack.step T) c_ es).dtor T = .ok ([], fun _ => none) := by
  intro T c_ es
  have run : Admissible (MyStack.step T) (Answered T) c_ es := by decide +kernel
  have results : outputs (MyStack.step T) c_ es =
      [.done, .done, .value 2, .threw, .element 4096 1, .value 1,
        .exception "read empty stack", .done, .threw, .number 0] := by decide +kernel
  obtain ⟨xs, replays, _, _, ended⟩ := lifo_of_run (Deque.create_eq T 4096) run
  rw [results] at replays
  exact ⟨xs, replays, ended⟩

end TorchTest.MyStack
