import TorchTest.PoolAlloc.Refinement

/-!
# How blocks are aligned

`_S_align` is 8, and nothing in the pool looks at `alignof(_Tp)`. Where a block
starts depends on everything carved before it, in steps of the classes carved:
`Arena.OnGrid d` says that every free block and the remainder start at a multiple
of `d`, which carving keeps for a class whose size is a multiple of `d`, and
filing, reclaiming and growing keep anyway.

With `d = 8` that is every class, so a pooled pointer is always a multiple of 8;
with `d = 16` it is every other class (`aligned_of_run`). Once odd multiples of 8
have been carved, a type of alignment 16 may be placed wrongly
(`misaligned_after_odd_class`), although the system's own pointers are multiples
of 16.
-/

namespace TorchTest.PoolAlloc

/-- Every free block and the remainder start at a multiple of `d`. -/
structure Arena.OnGrid (A : Arena) (d : Nat) : Prop where
  lists : ∀ i, ∀ p ∈ A.lists i, d ∣ p
  rem : d ∣ A.rem.start

namespace Arena.OnGrid

variable {A : Arena} {d c i p : Nat} {answer : Option Nat} {regions : List Interval}

theorem init (d : Nat) : Arena.init.OnGrid d where
  lists _ _ member := nomatch member
  rem := Nat.dvd_zero d

theorem setList (grid : A.OnGrid d) {l : List Nat} (starts : ∀ p ∈ l, d ∣ p) :
    (A.setList c l).OnGrid d where
  lists i := by
    rcases eq_or_ne i c with rfl | other
    · rw [setList_self]
      exact starts
    · rw [setList_of_ne A l other]
      exact grid.lists i
  rem := grid.rem

theorem release (grid : A.OnGrid d) (start : d ∣ p) : (A.release c p).OnGrid d :=
  grid.setList (List.forall_mem_cons.mpr ⟨start, grid.lists c⟩)

theorem setAside (grid : A.OnGrid d) : A.setAside.OnGrid d := by
  unfold Arena.setAside
  split
  · exact ⟨(grid.release grid.rem).lists, Nat.dvd_zero d⟩
  · exact ⟨grid.lists, Nat.dvd_zero d⟩

/-- A free block taken as the remainder starts where it did. -/
theorem reuse (grid : A.OnGrid d) (nonempty : A.lists i ≠ []) : (A.reuse i).OnGrid d := by
  rcases List.exists_cons_of_ne_nil nonempty with ⟨p, rest, list⟩
  have starts := grid.lists i
  rw [list] at starts
  rcases List.forall_mem_cons.mp starts with ⟨head, tail⟩
  unfold Arena.reuse
  rw [list]
  exact ⟨(grid.setList tail).lists, head⟩

/-- An interval obtained starts on the grid if the region granted does. -/
theorem obtain (grid : A.OnGrid d)
    (granted : ∀ r ∈ A.regionsAfter c answer regions, d ∣ r.start) :
    (A.obtain c answer).1.OnGrid d := by
  unfold regionsAfter at granted
  unfold Arena.obtain
  by_cases room : classSize c ≤ A.rem.length
  · rwa [if_pos room]
  · rw [if_neg room] at granted ⊢
    cases answer with
    | some base => exact ⟨grid.setAside.lists, granted ⟨base, A.wanted c⟩ List.mem_cons_self⟩
    | none =>
      cases found : A.setAside.firstFree c with
      | none => exact grid.setAside
      | some j => exact grid.setAside.reuse (firstFree_eq_some found).2.2

/-- Carving in steps of `d` stays on the grid. -/
theorem carve (grid : A.OnGrid d) (step : d ∣ classSize c) : (A.carve c).OnGrid d where
  lists := by
    refine (grid.setList (c := c) fun p member => ?_).lists
    rcases mem_progression.mp member with ⟨j, _, rfl⟩
    exact Nat.dvd_add (Nat.dvd_add grid.rem step) (step.mul_left j)
  rem := Nat.dvd_add grid.rem (step.mul_left _)

/-- A block handed out starts on the grid, whatever its class. -/
theorem allocated (grid : A.OnGrid d)
    (granted : ∀ r ∈ A.regionsOf c answer regions, d ∣ r.start)
    (some : (A.allocate c answer).2 = some p) : d ∣ p := by
  by_cases empty : A.lists c = []
  · rw [regionsOf, if_pos empty] at granted
    have obtained := grid.obtain granted
    rw [A.allocate_of_nil empty] at some
    rcases case : A.obtain c answer with ⟨A', _ | _⟩
    · rw [case] at some
      cases some
    · rw [case] at some obtained
      cases some
      exact obtained.rem
  · rcases List.exists_cons_of_ne_nil empty with ⟨q, rest, list⟩
    rw [A.allocate_of_cons list] at some
    cases some
    exact grid.lists c p (list ▸ List.mem_cons_self)

/-- A request for a class on the grid keeps the arena on it. -/
theorem allocate (grid : A.OnGrid d)
    (granted : ∀ r ∈ A.regionsOf c answer regions, d ∣ r.start) (step : d ∣ classSize c) :
    (A.allocate c answer).1.OnGrid d := by
  by_cases empty : A.lists c = []
  · rw [regionsOf, if_pos empty] at granted
    have obtained := grid.obtain granted
    rw [A.allocate_of_nil empty]
    rcases case : A.obtain c answer with ⟨A', _ | _⟩
    · rwa [case] at obtained
    · rw [case] at obtained
      exact obtained.carve step
  · rcases List.exists_cons_of_ne_nil empty with ⟨q, rest, list⟩
    rw [A.allocate_of_cons list]
    exact grid.setList fun p member => grid.lists c p (list ▸ List.mem_cons_of_mem _ member)

end Arena.OnGrid

/-! ## Runs -/

/-- What the pool hands out for this request, if it does, is a multiple of `d` long. -/
def Event.InSteps (d : Nat) : Event → Prop
  | .allocate T n _ => n * T.size ≤ maxBytes → d ∣ classSize (classOf (n * T.size))
  | _ => True

instance (d : Nat) : ∀ e : Event, Decidable (e.InSteps d)
  | .allocate T n _ =>
      inferInstanceAs (Decidable (n * T.size ≤ maxBytes → d ∣ classSize (classOf (n * T.size))))
  | .deallocate _ _ _ => isTrue True.intro
  | .write _ _ => isTrue True.intro

theorem Event.inSteps_align (e : Event) : e.InSteps align := by
  cases e with
  | allocate T n answer => exact fun _ => Nat.dvd_mul_right _ _
  | deallocate T p n => exact True.intro
  | write a v => exact True.intro

namespace World

/-- The system's pointers are multiples of `d`, read off the state after the event. -/
def GrantsAt (d : Nat) (w : World) (e : Event) : Prop :=
  ∀ r ∈ (w.step e).1.direct ++ (w.step e).1.pool.regions, d ∣ r.start

instance (d : Nat) (w : World) (e : Event) : Decidable (w.GrantsAt d e) :=
  inferInstanceAs (Decidable (∀ r ∈ _, _))

/-- The arena and the live blocks of the pool are on the grid. -/
structure OnGrid (d : Nat) (w : World) (A : Arena) : Prop where
  arena : A.OnGrid d
  live : ∀ b ∈ w.live, b.Pooled → d ∣ b.ptr

namespace OnGrid

variable {w : World} {A : Arena} {d n p : Nat} {T : ElemType} {answer : Option Nat} {e : Event}

/-- The regions of the pool after a request of up to 128 bytes. -/
theorem granted (inv : w.Inv A) (positive : n ≠ 0) (small : n * T.size ≤ maxBytes)
    (grants : w.GrantsAt d (.allocate T n answer)) :
    ∀ r ∈ A.regionsOf (classOf (n * T.size)) answer w.pool.regions, d ∣ r.start := by
  intro r member
  apply grants
  rw [pool_step_allocate, inv.regions_allocate positive small answer]
  exact List.mem_append_right _ member

/-- A pooled pointer returned is on the grid. -/
theorem returned (grid : w.OnGrid d A) (inv : w.Inv A) (valid : w.Valid (.allocate T n answer))
    (grants : w.GrantsAt d (.allocate T n answer)) (positive : n ≠ 0)
    (small : n * T.size ≤ maxBytes)
    (result : (w.step (.allocate T n answer)).2 = .returned p) : d ∣ p := by
  have served := (inv.step_small positive small valid.1).2.1
  rw [result] at served
  cases some : (A.allocate (classOf (n * T.size)) answer).2 with
  | none =>
    rw [some] at served
    cases served
  | some q =>
    rw [some] at served
    cases served
    exact grid.arena.allocated (granted inv positive small grants) some

/-- A valid event in steps of `d` keeps everything on the grid. -/
theorem step (grid : w.OnGrid d A) (inv : w.Inv A) (valid : w.Valid e) (grants : w.GrantsAt d e)
    (steps : e.InSteps d) : (w.step e).1.OnGrid d (A.serve e).1 := by
  cases e with
  | allocate T n answer =>
    constructor
    · simp only [Arena.serve]
      split_ifs with zero wrap large
      · exact grid.arena
      · exact grid.arena
      · exact grid.arena
      · have small := Nat.le_of_not_lt large
        exact grid.arena.allocate (granted inv zero small grants) (steps small)
    · intro b member pooled
      rcases w.step_allocate_cases T n answer with ⟨p, result, live⟩ | ⟨f, _, live⟩
      · rw [live] at member
        split_ifs at member with zero
        · exact grid.live b member pooled
        · rcases List.mem_cons.mp member with rfl | old
          · exact grid.returned inv valid grants zero pooled result
          · exact grid.live b old pooled
      · rw [live] at member
        exact grid.live b member pooled
  | deallocate T p n =>
    refine ⟨?_, fun b member => grid.live b (List.mem_of_mem_erase member)⟩
    simp only [Arena.serve]
    split_ifs with idle
    · exact grid.arena
    · simp only [not_or, not_lt] at idle
      rcases idle with ⟨positive, nonnull, small⟩
      have live : ⟨T, n, p⟩ ∈ w.live := valid.2.resolve_left nonnull
      exact grid.arena.release (grid.live _ live small)
  | write a v => exact ⟨grid.arena, grid.live⟩

end OnGrid

theorem GrantsAt.mono {w : World} {e : Event} {d D : Nat} (divides : d ∣ D)
    (grants : w.GrantsAt D e) : w.GrantsAt d e :=
  fun r member => divides.trans (grants r member)

theorem onGrid_init (m : Machine) (d : Nat) : (init m).OnGrid d Arena.init where
  arena := Arena.OnGrid.init d
  live _ member := nomatch member

/-- Over a valid run in steps of `d`, from regions at multiples of `d`, everything
stays on the grid. -/
theorem onGrid_of_run {w : World} {A : Arena} {d D : Nat} {es : List Event}
    (run : Admissible step (fun w e => w.Valid e ∧ w.GrantsAt D e) w es) (divides : d ∣ D)
    (steps : ∀ e ∈ es, e.InSteps d) (inv : w.Inv A) (grid : w.OnGrid d A) :
    (after step w es).Inv (after Arena.serve A es) ∧
      (after step w es).OnGrid d (after Arena.serve A es) := by
  induction es generalizing w A with
  | nil => exact ⟨inv, grid⟩
  | cons e es ih =>
    rcases run with ⟨⟨valid, grants⟩, rest⟩
    rcases List.forall_mem_cons.mp steps with ⟨first, later⟩
    exact ih rest later (inv.step valid).1 (grid.step inv valid (grants.mono divides) first)

/-- A pointer to more than 128 bytes is the system's. -/
theorem GrantsAt.returned {w : World} {T : ElemType} {n p d : Nat} {answer : Option Nat}
    (grants : w.GrantsAt d (.allocate T n answer)) (positive : n ≠ 0)
    (large : maxBytes < n * T.size)
    (result : (w.step (.allocate T n answer)).2 = .returned p) : d ∣ p := by
  rcases w.step_allocate_cases T n answer with ⟨q, same, live⟩ | ⟨f, failed, _⟩
  · rw [result] at same
    cases same
    rw [if_neg positive] at live
    have newest : ⟨T, n, p⟩ ∈ (w.step (.allocate T n answer)).1.live :=
      live ▸ List.mem_cons_self
    exact grants _ (List.mem_append_left _ (mem_direct newest (Nat.not_le.mpr large)))
  · rw [result] at failed
    cases failed

/-- With `::operator new` at multiples of 16, a pointer to more than 128 bytes has
the alignment of its type. A pooled pointer is a multiple of 8, which is enough for
the types of alignment 8 or less; it has any alignment up to 16 as long as every
pooled request before it came to a multiple of 16 bytes. -/
theorem aligned_of_run (m : Machine) {es : List Event} {T : ElemType} {n p : Nat}
    {answer : Option Nat}
    (run : Admissible step (fun w e => w.Valid e ∧ w.GrantsAt 16 e) (init m) es)
    (valid : (after step (init m) es).Valid (.allocate T n answer))
    (grants : (after step (init m) es).GrantsAt 16 (.allocate T n answer)) (positive : n ≠ 0)
    (alignment : T.align ∣ 16)
    (result : ((after step (init m) es).step (.allocate T n answer)).2 = .returned p) :
    (maxBytes < n * T.size → T.align ∣ p) ∧
      (n * T.size ≤ maxBytes →
        align ∣ p ∧ (T.align ∣ align → T.align ∣ p) ∧
          ((∀ e ∈ es, e.InSteps 16) → T.align ∣ p)) := by
  refine ⟨fun large => alignment.trans (grants.returned positive large result), fun small => ?_⟩
  have onGrid : ∀ d, d ∣ 16 → (∀ e ∈ es, e.InSteps d) → d ∣ p := by
    intro d divides steps
    rcases onGrid_of_run run divides steps (inv_init m) (onGrid_init m d) with ⟨inv, grid⟩
    exact grid.returned inv valid (grants.mono divides) positive small result
  have eight := onGrid align (by decide) fun e _ => e.inSteps_align
  exact ⟨eight, fun divides => divides.trans eight,
    fun steps => alignment.trans (onGrid 16 (dvd_refl 16) steps)⟩

end World

/-- `long double`. -/
def ElemType.longDouble : ElemType :=
  { id := 3, size := 16, align := 16, size_pos := Nat.zero_lt_succ 15 }

namespace World

/-- A `long double` as the first request, and an array of them from the system. -/
theorem aligned_of_run_long_double :
    (ElemType.longDouble.align ∣ 4096 ∧ align ∣ 4096) ∧ ElemType.longDouble.align ∣ 65536 := by
  rcases @aligned_of_run Machine.zero [] .longDouble 1 4096 (some 4096) (by decide)
    (by decide +kernel) (by decide +kernel) (by decide) (by decide) (by decide +kernel) with
    ⟨_, pooled⟩
  rcases pooled (by decide) with ⟨eight, _, grid⟩
  rcases @aligned_of_run Machine.zero sampleRun .longDouble 9 65536 (some 65536)
    (by decide +kernel) (by decide +kernel) (by decide +kernel) (by decide) (by decide)
    (by decide +kernel) with ⟨direct, _⟩
  exact ⟨⟨grid fun e member => (nomatch member), eight⟩, direct (by decide)⟩

/-- A `long`, eleven of them, a `long double`: the refill for the first leaves 160
bytes of the region at 4096, the 88 bytes are carved off these, and the `long
double` is placed behind them, at 8 more than a multiple of 16. -/
theorem misaligned_after_odd_class :
    let es : List Event := [.allocate .long 1 (some 4096), .allocate .long 11 none]
    Admissible step (fun w e => w.Valid e ∧ w.GrantsAt 16 e) (init Machine.zero) es ∧
      (after step (init Machine.zero) es).Valid (.allocate .longDouble 1 none) ∧
      (after step (init Machine.zero) es).GrantsAt 16 (.allocate .longDouble 1 none) ∧
      ((after step (init Machine.zero) es).step (.allocate .longDouble 1 none)).2 =
        .returned 4344 ∧
      ElemType.longDouble.align ∣ 16 ∧ ElemType.longDouble.align ∣ ElemType.longDouble.size ∧
      ¬ElemType.longDouble.align ∣ 4344 := by
  exact ⟨by decide +kernel, by decide +kernel, by decide +kernel, by decide +kernel, by decide,
    by decide, by decide⟩

end World

end TorchTest.PoolAlloc
