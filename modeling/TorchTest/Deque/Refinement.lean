import TorchTest.Deque.Lifetime
import TorchTest.Library.Runs

/-!
# A deque is a sequence

Calls on a deque from its constructor on, in any order, with any answers of the system and of
the copy constructor of the elements. `Serves` is what they do to a sequence of elements, each
at an address of its own that it keeps as long as it is in the sequence. A call that adds an
element may fail, and leaves the sequence then as it is.

`Represents` relates a deque to its sequence, and every call keeps it (`Represents.step`).
-/

namespace TorchTest.Deque

/-- The calls. An assignment is to the element that `operator[]` gives. -/
inductive Event (α : Type)
  | pushBack (v : α) (env : Env)
  | pushFront (v : α) (env : Env)
  | popBack
  | popFront
  | front
  | back
  | index (k : Nat)
  | at? (k : Nat)
  | assign (k : Nat) (v : α)
  | size
  | empty
  | clear
  deriving DecidableEq, Repr

/-- What the caller sees. -/
inductive Result (α : Type)
  | done
  | badAlloc
  | threw
  | outOfRange
  | element (a : Nat) (v : α)
  | number (n : Int)
  | flag (b : Bool)
  | faulted (f : Fault)
  deriving DecidableEq, Repr

/-- The result of a call that adds an element. -/
def Outcome.result {α : Type} : Outcome → Result α
  | .done => .done
  | .badAlloc => .badAlloc
  | .threw => .threw

variable {α : Type} (T : ElemType)

/-- One call. -/
def run (d : Deque α) : Event α → Except Fault (Deque α × Result α)
  | .pushBack v env => do
      let (d, outcome) ← d.pushBack T v env
      return (d, outcome.result)
  | .pushFront v env => do
      let (d, outcome) ← d.pushFront T v env
      return (d, outcome.result)
  | .popBack => do
      let d ← d.popBack T
      return (d, .done)
  | .popFront => do
      let d ← d.popFront T
      return (d, .done)
  | .front => do
      let v ← d.read d.front
      return (d, .element d.front v)
  | .back => do
      let a ← d.back T
      let v ← d.read a
      return (d, .element a v)
  | .index k => do
      let a ← d.index T k
      let v ← d.read a
      return (d, .element a v)
  | .at? k => do
      match ← d.at? T k with
      | some a =>
        let v ← d.read a
        return (d, .element a v)
      | none => return (d, .outOfRange)
  | .assign k v => do
      let a ← d.index T k
      let d ← d.assign a v
      return (d, .done)
  | .size => .ok (d, .number (d.size T))
  | .empty => .ok (d, .flag d.empty)
  | .clear => do
      let d ← d.clear T
      return (d, .done)

/-- One call; the state does not matter after a fault. -/
def step (d : Deque α) (e : Event α) : Deque α × Result α :=
  match d.run T e with
  | .ok out => out
  | .error f => (d, .faulted f)

/-- What a call demands: the deque is not empty, or long enough, and a new node is apart from
those there are. -/
def Allowed (d : Deque α) : Event α → Prop
  | .pushBack _ env | .pushFront _ env => NodeFresh T d env.node
  | .popBack | .popFront | .front | .back => d.empty = false
  | .index k | .assign k _ => (k : Int) < d.size T
  | .at? _ | .size | .empty | .clear => True

instance (d : Deque α) : ∀ e, Decidable (d.Allowed T e)
  | .pushBack _ env | .pushFront _ env => inferInstanceAs (Decidable (NodeFresh T d env.node))
  | .popBack | .popFront | .front | .back => inferInstanceAs (Decidable (d.empty = false))
  | .index k | .assign k _ => inferInstanceAs (Decidable ((k : Int) < d.size T))
  | .at? _ | .size | .empty | .clear => inferInstanceAs (Decidable True)

/-- The system or the copy constructor refuses. -/
inductive Refuses {α : Type} : Env → Result α → Prop
  | badAlloc {env : Env} (refused : env.map = false ∨ env.node = none) : Refuses env .badAlloc
  | threw {env : Env} (refused : env.copy = false) : Refuses env .threw

/-- What a call does to a sequence of elements with their addresses. -/
inductive Serves : List (Nat × α) → Event α → Result α → List (Nat × α) → Prop
  | pushBack {xs : List (Nat × α)} {a : Nat} {v : α} {env : Env} (copied : env.copy = true)
      (new : a ∉ xs.map Prod.fst) : Serves xs (.pushBack v env) .done (xs ++ [(a, v)])
  | pushFront {xs : List (Nat × α)} {a : Nat} {v : α} {env : Env} (copied : env.copy = true)
      (new : a ∉ xs.map Prod.fst) : Serves xs (.pushFront v env) .done ((a, v) :: xs)
  | refusedBack {xs : List (Nat × α)} {v : α} {env : Env} {r : Result α}
      (refused : Refuses env r) : Serves xs (.pushBack v env) r xs
  | refusedFront {xs : List (Nat × α)} {v : α} {env : Env} {r : Result α}
      (refused : Refuses env r) : Serves xs (.pushFront v env) r xs
  | popBack {xs : List (Nat × α)} {x : Nat × α} : Serves (xs ++ [x]) .popBack .done xs
  | popFront {xs : List (Nat × α)} {x : Nat × α} : Serves (x :: xs) .popFront .done xs
  | front {xs : List (Nat × α)} {x : Nat × α} :
      Serves (x :: xs) .front (.element x.1 x.2) (x :: xs)
  | back {xs : List (Nat × α)} {x : Nat × α} :
      Serves (xs ++ [x]) .back (.element x.1 x.2) (xs ++ [x])
  | index {xs : List (Nat × α)} {x : Nat × α} {k : Nat} (here : xs[k]? = some x) :
      Serves xs (.index k) (.element x.1 x.2) xs
  | at? {xs : List (Nat × α)} {x : Nat × α} {k : Nat} (here : xs[k]? = some x) :
      Serves xs (.at? k) (.element x.1 x.2) xs
  | beyond {xs : List (Nat × α)} {k : Nat} (beyond : xs.length ≤ k) :
      Serves xs (.at? k) .outOfRange xs
  | assign {xs : List (Nat × α)} {a k : Nat} {v w : α} (here : xs[k]? = some (a, v)) :
      Serves xs (.assign k w) .done (xs.set k (a, w))
  | size {xs : List (Nat × α)} : Serves xs .size (.number xs.length) xs
  | empty {xs : List (Nat × α)} : Serves xs .empty (.flag xs.isEmpty) xs
  | clear {xs : List (Nat × α)} : Serves xs .clear .done []

/-- The deque has the elements `xs`. -/
def Represents (d : Deque α) (xs : List (Nat × α)) : Prop := ∃ L, Rep T d L xs

variable {T} {d d' : Deque α} {xs : List (Nat × α)} {e : Event α} {r : Result α}

theorem step_of_run (ran : d.run T e = .ok (d', r)) : d.step T e = (d', r) := by
  rw [step, ran]

theorem read_eq {a : Nat} {v : α} (here : d.objs a = some v) : d.read a = .ok v := by
  rw [read, here]

/-- The elements that are there before the last one. -/
theorem Rep.exists_last {L : Layout} (rep : Rep T d L xs) (some : d.empty = false) :
    ∃ front x, xs = front ++ [x] := by
  rcases List.eq_nil_or_concat xs with none | ⟨front, x, last⟩
  · rw [rep.empty_iff.mpr none] at some
    cases some
  · exact ⟨front, x, last.trans List.concat_eq_append⟩

theorem Rep.exists_first {L : Layout} (rep : Rep T d L xs) (some : d.empty = false) :
    ∃ x rest, xs = x :: rest := by
  rcases xs with _ | ⟨x, rest⟩
  · rw [rep.empty_iff.mpr rfl] at some
    cases some
  · exact ⟨x, rest, rfl⟩

/-- The element with its address. -/
theorem Rep.read_eq {L : Layout} (rep : Rep T d L xs) {x : Nat × α} (member : x ∈ xs) :
    d.read x.1 = .ok x.2 :=
  Deque.read_eq ((rep.objs x.1 x.2).mpr member)

/-- Where the nodes are in the map after a call with the result `r`. -/
def Placed (T : ElemType) (d : Deque α) (e : Event α) (r : Result α) (d' : Deque α) : Prop :=
  match e with
  | .pushBack _ env =>
      ∃ d₁, (¬d.MovesBack T env ∧ d₁ = d ∨ d.MovesBack T env ∧ Moved d d₁ 1 false) ∧
        (d'.place = d₁.place ∨
          r = .done ∧ d'.place = (d₁.mapSize, d₁.start.node, d₁.finish.node + 1))
  | .pushFront _ env =>
      ∃ d₁, (¬d.MovesFront env ∧ d₁ = d ∨ d.MovesFront env ∧ Moved d d₁ 1 true) ∧
        (d'.place = d₁.place ∨
          r = .done ∧ d'.place = (d₁.mapSize, d₁.start.node - 1, d₁.finish.node))
  | _ => Shrinks d d'

/-- What a call serves, and what it leaves. -/
def Answers (T : ElemType) (d : Deque α) (xs : List (Nat × α)) (e : Event α) : Prop :=
  ∃ d' r xs', d.run T e = .ok (d', r) ∧ Serves xs e r xs' ∧ Represents T d' xs' ∧
    Placed T d e r d'

/-- A call that adds an element succeeds or leaves the elements as they are. -/
theorem Added.serves {o : Outcome} {env : Env} {added : Nat → List (Nat × α)}
    (result : Added T d' o env xs added)
    (done : ∀ {a}, env.copy = true → a ∉ xs.map Prod.fst → Serves xs e .done (added a))
    (refused : ∀ {r}, Refuses env r → Serves xs e r xs) :
    ∃ xs', Serves xs e o.result xs' ∧ Represents T d' xs' := by
  rcases result with ⟨rfl, copied, a, L, new, rep⟩ | ⟨rep, ⟨rfl, none⟩ | ⟨rfl, threw⟩⟩
  · exact ⟨added a, done copied new, L, rep⟩
  · exact ⟨xs, refused (.badAlloc none), rep⟩
  · exact ⟨xs, refused (.threw threw), rep⟩

namespace Rep

variable {L : Layout}

theorem answers_pushBack (rep : Rep T d L xs) {v : α} {env : Env}
    (fresh : NodeFresh T d env.node) : Answers T d xs (.pushBack v env) := by
  obtain ⟨d₁, d', o, pushed, added, moves, place⟩ := rep.pushBack v fresh
  obtain ⟨xs', serves, rep'⟩ := added.serves .pushBack .refusedBack
  exact ⟨d', o.result, xs', by rw [run, pushed]; rfl, serves, rep', d₁, moves,
    place.imp_right (And.imp_left (congrArg Outcome.result))⟩

theorem answers_pushFront (rep : Rep T d L xs) {v : α} {env : Env}
    (fresh : NodeFresh T d env.node) : Answers T d xs (.pushFront v env) := by
  obtain ⟨d₁, d', o, pushed, added, moves, place⟩ := rep.pushFront v fresh
  obtain ⟨xs', serves, rep'⟩ := added.serves .pushFront .refusedFront
  exact ⟨d', o.result, xs', by rw [run, pushed]; rfl, serves, rep', d₁, moves,
    place.imp_right (And.imp_left (congrArg Outcome.result))⟩

/-- An element that is read. -/
theorem answers_index (rep : Rep T d L xs) {k : Nat} (less : (k : Int) < d.size T) :
    Answers T d xs (.index k) := by
  rw [rep.size_eq, Int.ofNat_lt] at less
  have index := rep.index_eq less
  have read := rep.read_eq (List.getElem_mem less)
  exact ⟨d, _, xs, by rw [run, index, ok_bind, read]; rfl,
    .index (List.getElem?_eq_getElem less), ⟨L, rep⟩, .refl d⟩

theorem answers_at? (rep : Rep T d L xs) (k : Nat) : Answers T d xs (.at? k) := by
  have found := rep.at?_eq k
  rcases Nat.lt_or_ge k xs.length with less | more
  · have here := List.getElem?_eq_getElem less
    have read := rep.read_eq (List.getElem_mem less)
    rw [here] at found
    refine ⟨d, .element xs[k].1 xs[k].2, xs, ?_, .at? here, ⟨L, rep⟩, .refl d⟩
    rw [run, found, ok_bind]
    simp only [Option.map_some, read, ok_bind]
    rfl
  · rw [List.getElem?_eq_none more] at found
    exact ⟨d, .outOfRange, xs, by rw [run, found]; rfl, .beyond more, ⟨L, rep⟩, .refl d⟩

theorem answers_assign (rep : Rep T d L xs) {k : Nat} {w : α} (less : (k : Int) < d.size T) :
    Answers T d xs (.assign k w) := by
  rw [rep.size_eq, Int.ofNat_lt] at less
  have here : xs[k]? = some (xs[k].1, xs[k].2) := List.getElem?_eq_getElem less
  obtain ⟨assigned, rep'⟩ := rep.assign here w
  exact ⟨_, _, _, by rw [run, rep.index_eq less, ok_bind, assigned]; rfl, .assign here, ⟨L, rep'⟩,
    rfl, le_rfl, le_rfl⟩

end Rep

/-- Every call that is allowed gives what it gives on the sequence. -/
theorem Represents.answers (represents : Represents T d xs) (allowed : d.Allowed T e) :
    Answers T d xs e := by
  obtain ⟨L, rep⟩ := represents
  cases e with
  | pushBack v env => exact rep.answers_pushBack allowed
  | pushFront v env => exact rep.answers_pushFront allowed
  | popBack =>
    obtain ⟨front, x, rfl⟩ := rep.exists_last allowed
    obtain ⟨d', L', popped, rep', shrinks⟩ := rep.popBack
    exact ⟨d', _, front, by rw [run, popped]; rfl, .popBack, ⟨L', rep'⟩, shrinks⟩
  | popFront =>
    obtain ⟨x, rest, rfl⟩ := rep.exists_first allowed
    obtain ⟨d', L', popped, rep', shrinks⟩ := rep.popFront
    exact ⟨d', _, rest, by rw [run, popped]; rfl, .popFront, ⟨L', rep'⟩, shrinks⟩
  | front =>
    obtain ⟨x, rest, rfl⟩ := rep.exists_first allowed
    have read := rep.read_eq List.mem_cons_self
    exact ⟨d, _, _, by rw [run, rep.front_eq, read]; rfl, .front, ⟨L, rep⟩, .refl d⟩
  | back =>
    obtain ⟨front, x, rfl⟩ := rep.exists_last allowed
    have read := rep.read_eq (List.mem_append_right front (List.mem_singleton_self x))
    exact ⟨d, _, _, by rw [run, rep.back_eq, ok_bind, read]; rfl, .back, ⟨L, rep⟩, .refl d⟩
  | index k => exact rep.answers_index allowed
  | at? k => exact rep.answers_at? k
  | assign k w => exact rep.answers_assign allowed
  | size => exact ⟨d, _, xs, by rw [run, rep.size_eq], .size, ⟨L, rep⟩, .refl d⟩
  | empty =>
    have flag : d.empty = xs.isEmpty := by
      rw [Bool.eq_iff_iff, rep.empty_iff, List.isEmpty_iff]
    exact ⟨d, _, xs, by rw [run, flag], .empty, ⟨L, rep⟩, .refl d⟩
  | clear =>
    obtain ⟨d', L', cleared, rep', shrinks⟩ := rep.clear
    exact ⟨d', _, [], by rw [run, cleared]; rfl, .clear, ⟨L', rep'⟩, shrinks⟩

theorem Represents.step (represents : Represents T d xs) (allowed : d.Allowed T e) :
    ∃ xs', Serves xs e (d.step T e).2 xs' ∧ Represents T (d.step T e).1 xs' ∧
      Placed T d e (d.step T e).2 (d.step T e).1 := by
  obtain ⟨d', r, xs', ran, serves, represents', placed⟩ := represents.answers allowed
  rw [step_of_run ran]
  exact ⟨xs', serves, represents', placed⟩

/-- No call that is allowed does what is undefined. -/
theorem Serves.not_faulted {xs' : List (Nat × α)} (serves : Serves xs e r xs') (f : Fault) :
    r ≠ .faulted f := by
  rintro rfl
  cases serves with
  | refusedBack refused => cases refused
  | refusedFront refused => cases refused

/-- The addresses of the elements stay different. -/
theorem Represents.nodup (represents : Represents T d xs) : (xs.map Prod.fst).Nodup := by
  obtain ⟨L, rep⟩ := represents
  exact rep.nodup

theorem Represents.objs (represents : Represents T d xs) (a : Nat) (v : α) :
    d.objs a = some v ↔ (a, v) ∈ xs := by
  obtain ⟨L, rep⟩ := represents
  exact rep.objs a v

/-- A new deque is empty. -/
theorem represents_create {p : Nat} (created : create T p = .ok d) : Represents T d [] := by
  rw [create_eq] at created
  cases created
  exact ⟨_, rep_initial T p⟩

/-- A deque represents some sequence, whatever is called. -/
theorem Represents.keep (d : Deque α) (e : Event α) (some : ∃ xs, Represents T d xs)
    (allowed : d.Allowed T e) : ∃ xs, Represents T (d.step T e).1 xs := by
  obtain ⟨xs, represents⟩ := some
  obtain ⟨xs', _, represents', _⟩ := represents.step allowed
  exact ⟨xs', represents'⟩

/-- Whatever is called on a new deque, and whatever the system answers: the results are those
of a sequence, no call does what is undefined, the elements of the sequence are the objects
there are, and the destructor leaves neither objects nor nodes. -/
theorem refines_of_run {p : Nat} {es : List (Event α)} (created : create T p = .ok d)
    (run : Admissible (Deque.step T) (Allowed T) d es) :
    let d' := after (Deque.step T) d es
    ∃ xs, Replays Serves [] es (outputs (Deque.step T) d es) xs ∧
      (∀ a v, d'.objs a = some v ↔ (a, v) ∈ xs) ∧ (xs.map Prod.fst).Nodup ∧
      (∀ r ∈ outputs (Deque.step T) d es, ∀ f, r ≠ .faulted f) ∧
      d'.dtor T = .ok ([], fun _ => none) := by
  intro d'
  have start := represents_create created
  rcases run.replays (R := Represents T) start (fun d xs e represents allowed => by
    obtain ⟨xs', serves, represents', _⟩ := represents.step allowed
    exact ⟨xs', serves, represents'⟩) with ⟨xs, replays, final⟩
  have faultless := run.forall_outputs (I := fun d => ∃ xs, Represents T d xs)
    (P := fun r => ∀ f, r ≠ .faulted f) ⟨[], start⟩ Represents.keep
    (fun d e some allowed f => by
      obtain ⟨xs, represents⟩ := some
      obtain ⟨xs', serves, _⟩ := represents.step allowed
      exact serves.not_faulted f)
  refine ⟨xs, replays, final.objs, final.nodup, faultless, ?_⟩
  obtain ⟨L, rep⟩ := final
  exact rep.dtor

/-- One element a node: the sixth one needs a larger map, and is refused before it is there. -/
theorem refines_of_run_grown :
    let T : ElemType := ⟨512, by decide⟩
    let d : Deque Nat := initial T 4096
    let es : List (Event Nat) :=
      [.pushBack 7 ⟨false, some 8192, true⟩, .pushBack 8 ⟨false, some 12288, true⟩,
        .pushBack 9 ⟨false, none, true⟩, .pushBack 9 ⟨false, some 16384, false⟩,
        .pushFront 6 ⟨false, some 20480, true⟩, .pushBack 9 ⟨false, some 16384, true⟩,
        .pushBack 10 ⟨false, some 24576, true⟩, .pushBack 11 ⟨false, some 28672, true⟩,
        .pushBack 11 ⟨true, some 28672, true⟩, .index 5, .at? 6, .popFront, .front, .size]
    ∃ xs, Replays Serves [] es
        [.done, .done, .badAlloc, .threw, .done, .done, .done, .badAlloc, .done,
          .element 24576 11, .outOfRange, .done, .element 4096 7, .number 5] xs ∧
      (after (Deque.step T) d es).dtor T = .ok ([], fun _ => none) := by
  intro T d es
  have run : Admissible (Deque.step T) (Allowed T) d es := by decide +kernel
  have results : outputs (Deque.step T) d es =
      [.done, .done, .badAlloc, .threw, .done, .done, .done, .badAlloc, .done,
        .element 24576 11, .outOfRange, .done, .element 4096 7, .number 5] := by decide +kernel
  obtain ⟨xs, replays, _, _, _, ended⟩ := refines_of_run (create_eq T 4096) run
  rw [results] at replays
  exact ⟨xs, replays, ended⟩

/-! ## Iterators -/

/-- The iterator at the element with number `i`, or at the end. -/
def iterAt (T : ElemType) (d : Deque α) (i : Nat) : Iter :=
  match d.start.advance T d.map i with
  | .ok it => it
  | .error _ => d.start

theorem Rep.iterAt {L : Layout} (rep : Rep T d L xs) {i : Nat} (le : i ≤ xs.length) :
    IterAt T d.start.node L.nodes (L.skip + i) (d.iterAt T i) := by
  have inside := rep.length_lt
  rcases rep.iterAt_start.advance_eq rep.map (k := L.skip + i) (n := i) (by push_cast; rfl)
    (by omega) with ⟨it, advanced, there⟩
  rw [Deque.iterAt, advanced]
  exact there

/-- Whatever was called, iterators are as good as the numbers from zero, `begin()`, to the
size, `end()`: `operator+=`, `++` and `--` reach each from each, `operator-` is their
difference, `==` and `<` compare them, and what they point to is what `operator[]` gives. -/
theorem iterators_of_run {p : Nat} {es : List (Event α)} (created : create T p = .ok d)
    (run : Admissible (Deque.step T) (Allowed T) d es) :
    let d' := after (Deque.step T) d es
    ∃ n : Nat, d'.size T = n ∧ d'.iterAt T 0 = d'.start ∧ d'.iterAt T n = d'.finish ∧
      (∀ i ≤ n, ∀ k ≤ n,
        (d'.iterAt T i).advance T d'.map ((k : Int) - i) = .ok (d'.iterAt T k) ∧
        (d'.iterAt T k).distance T (d'.iterAt T i) = (k : Int) - i ∧
        ((d'.iterAt T i).same (d'.iterAt T k) = true ↔ i = k) ∧
        ((d'.iterAt T i).less (d'.iterAt T k) = true ↔ i < k)) ∧
      ∀ i < n,
        (d'.iterAt T i).increment T d'.map = .ok (d'.iterAt T (i + 1)) ∧
        (d'.iterAt T (i + 1)).decrement T d'.map = .ok (d'.iterAt T i) ∧
        d'.index T i = .ok (d'.iterAt T i).cur ∧ ∃ v, d'.objs (d'.iterAt T i).cur = some v := by
  intro d'
  have final : ∃ xs, Represents T d' xs :=
    run.invariant ⟨[], represents_create created⟩ Represents.keep
  obtain ⟨xs, L, rep⟩ := final
  have inside := rep.length_lt
  refine ⟨xs.length, rep.size_eq, ?_, ?_, fun i le k le' => ?_, fun i less => ?_⟩
  · exact (rep.iterAt (Nat.zero_le _)).unique rep.iterAt_start
  · exact (rep.iterAt le_rfl).unique rep.iterAt_finish
  · have here := rep.iterAt le
    have there := rep.iterAt le'
    refine ⟨?_, ?_, ?_, ?_⟩
    · rcases here.advance_eq rep.map (k := L.skip + k) (n := (k : Int) - i)
        (by push_cast; ring) (by omega) with ⟨it, advanced, at_k⟩
      rw [advanced, at_k.unique there]
    · rw [there.distance_eq here]
      push_cast
      ring
    · rw [here.same_iff rep.places.nodup there, Nat.add_left_cancel_iff]
    · rw [here.less_iff there, Nat.add_lt_add_iff_left]
  · have here := rep.iterAt less.le
    have next := rep.iterAt (Nat.succ_le_of_lt less)
    have cur := rep.cur_eq less here
    have on : L.skip + i + 1 < L.nodes.length * T.bufSize := by omega
    refine ⟨?_, ?_, ?_, xs[i].2, ?_⟩
    · obtain ⟨it, advanced, at_next⟩ := here.increment_eq rep.map on
      rw [advanced, at_next.unique next]
    · obtain ⟨it, advanced, at_i⟩ := next.decrement_eq rep.map (Nat.lt_of_succ_lt on)
      rw [advanced, at_i.unique here]
    · rw [rep.index_eq less, cur]
    · rw [cur]
      exact (rep.objs _ _).mpr (List.getElem_mem less)

/-- Two elements a node, with one before the first node and one behind it. -/
theorem iterators_of_run_sample :
    let T : ElemType := ⟨256, by decide⟩
    let d : Deque Nat := initial T 4096
    let es : List (Event Nat) := [.pushFront 6 ⟨false, some 8192, true⟩,
      .pushBack 7 ⟨false, none, true⟩, .pushBack 8 ⟨false, some 12288, true⟩]
    let d' := after (Deque.step T) d es
    (d'.iterAt T 2).advance T d'.map (-2) = .ok d'.start ∧
      d'.finish.distance T d'.start = 3 := by
  intro T d es d'
  have run : Admissible (Deque.step T) (Allowed T) d es := by decide +kernel
  obtain ⟨n, size, first, last, between, _⟩ := iterators_of_run (create_eq T 4096) run
  have three : n = 3 := Int.natCast_inj.mp (size.symm.trans (by decide +kernel))
  rw [three] at last between
  constructor
  · have back := (between 2 (by decide) 0 (by decide)).1
    rwa [first] at back
  · have all := (between 0 (by decide) 3 (by decide)).2.1
    rwa [first, last] at all

end TorchTest.Deque
