import TorchTest.PoolAlloc.Reuse

/-!
# Elementary operations

A request does at most three things to the arena: it sets the remainder aside, makes
a region or a free block the remainder, and carves the remainder up; or it takes the
head of a list. With a release these are all the ways in which memory changes hands.
What each of them keeps (`Kept`) is kept by every valid event (`Kept.step`) and by
every run (`Kept.run`). Where the system refuses nothing, no free block becomes the
remainder, and that operation need not keep it.
-/

namespace TorchTest.PoolAlloc

/-- A relation between an arena, the live blocks of the pool and the regions granted
is kept by every elementary operation; by taking a free block as the remainder only if
there are `refusals`. -/
structure Kept (refusals : Prop) (P : Arena → List Interval → List Interval → Prop) : Prop where
  perm {A : Arena} {live live' regions : List Interval} :
    live.Perm live' → P A live regions → P A live' regions
  release {A : Arena} {live regions : List Interval} {c p : Nat} : c < freeListSize →
    P A (⟨p, classSize c⟩ :: live) regions → P (A.release c p) live regions
  pop {A : Arena} {live regions : List Interval} {c p : Nat} {rest : List Nat} :
    c < freeListSize → A.lists c = p :: rest → P A live regions →
    P (A.setList c rest) (⟨p, classSize c⟩ :: live) regions
  setAside {A : Arena} {live regions : List Interval} : align ∣ A.rem.length →
    A.rem.length ≤ maxBytes → P A live regions → P A.setAside live regions
  grow {A : Arena} {live regions : List Interval} {c base : Nat} : c < freeListSize →
    A.rem.length = 0 → P A live regions →
    P (A.grow c base) live (⟨base, A.wanted c⟩ :: regions)
  reuse {A : Arena} {live regions : List Interval} {i p : Nat} {rest : List Nat} : refusals →
    i < freeListSize → A.rem.length = 0 → A.lists i = p :: rest → P A live regions →
    P (A.reuse i) live regions
  carve {A : Arena} {live regions : List Interval} {c : Nat} : c < freeListSize →
    A.lists c = [] → classSize c ≤ A.rem.length → P A live regions →
    P (A.carve c) (⟨A.rem.start, classSize c⟩ :: live) regions

namespace Kept

variable {refusals : Prop} {P : Arena → List Interval → List Interval → Prop} {A : Arena}
  {live regions : List Interval} {c : Nat} {answer : Option Nat}

/-- Obtaining an interval keeps it. -/
theorem obtain (kept : Kept refusals P) (small : c < freeListSize)
    (aligned : align ∣ A.rem.length)
    (unrefused : refusals ∨ classSize c ≤ A.rem.length ∨ answer ≠ none)
    (holds : P A live regions) :
    P (A.obtain c answer).1 live (A.regionsAfter c answer regions) := by
  unfold Arena.obtain Arena.regionsAfter
  by_cases room : classSize c ≤ A.rem.length
  · simpa only [if_pos room] using holds
  · have short : A.rem.length ≤ maxBytes := (Nat.le_of_not_le room).trans (classSize_lt small)
    have aside := kept.setAside aligned short holds
    simp only [if_neg room]
    cases answer with
    | some base =>
      have grown : P (A.setAside.grow c base) live _ :=
        kept.grow small A.length_rem_setAside aside
      rwa [A.wanted_setAside] at grown
    | none =>
      cases found : A.setAside.firstFree c with
      | none => exact aside
      | some i =>
        rcases Arena.firstFree_eq_some found with ⟨_, inside, nonempty⟩
        rcases List.exists_cons_of_ne_nil nonempty with ⟨p, rest, list⟩
        have refused := (unrefused.resolve_right fun ok => ok.elim room fun some => some rfl)
        exact kept.reuse refused inside A.length_rem_setAside list aside

/-- A request keeps it. -/
theorem allocate (kept : Kept refusals P) (small : c < freeListSize)
    (aligned : align ∣ A.rem.length)
    (unrefused : refusals ∨ A.lists c ≠ [] ∨ classSize c ≤ A.rem.length ∨ answer ≠ none)
    (holds : P A live regions) :
    P (A.allocate c answer).1 (A.taken c answer ++ live) (A.regionsOf c answer regions) := by
  unfold Arena.taken Arena.regionsOf
  by_cases empty : A.lists c = []
  · have obtained := kept.obtain small aligned
      (unrefused.imp_right fun ok => ok.resolve_left (not_not_intro empty)) holds
    have empty' := A.lists_obtain (c := c) answer empty aligned
    have room := A.room_obtain c answer
    rw [if_pos empty, A.allocate_of_nil empty]
    rcases case : A.obtain c answer with ⟨A', ok⟩
    rw [case] at obtained empty' room
    cases ok with
    | true => exact kept.carve small empty' (room rfl) obtained
    | false => exact obtained
  · rcases List.exists_cons_of_ne_nil empty with ⟨p, rest, list⟩
    rw [if_neg empty, A.allocate_of_cons list]
    exact kept.pop small list holds

end Kept

namespace World

variable {refusals : Prop} {P : Arena → List Interval → List Interval → Prop} {w : World}
  {A : Arena} {T : ElemType} {p n : Nat} {answer : Option Nat} {e : Event} {es : List Event}

/-- The live blocks of the pool after a request of up to 128 bytes. -/
theorem Inv.pooled_allocate (inv : w.Inv A) (positive : n ≠ 0) (small : n * T.size ≤ maxBytes)
    (valid : w.Valid (.allocate T n answer)) :
    (w.step (.allocate T n answer)).1.pooled =
      A.taken (classOf (n * T.size)) answer ++ w.pooled := by
  have result := (inv.step_small positive small valid.1).2.1
  have fits : ∀ ptr, Block.Pooled ⟨T, n, ptr⟩ := fun _ => small
  unfold Arena.taken
  rcases w.step_allocate_cases T n answer with ⟨ptr, returned, live⟩ | ⟨f, failed, live⟩
  · rw [returned] at result
    rw [if_neg positive] at live
    have same : (w.step (.allocate T n answer)).1.pooled =
        World.pooled ⟨w.pool, ⟨T, n, ptr⟩ :: w.live⟩ := by
      rw [World.pooled, live]
      rfl
    cases case : (A.allocate (classOf (n * T.size)) answer).2 with
    | none =>
      rw [case] at result
      cases result
    | some q =>
      rw [case] at result
      cases result
      rw [same, pooled_cons, if_pos (fits _), Block.span_of_pooled (fits _) positive]
      rfl
  · rw [failed] at result
    cases case : (A.allocate (classOf (n * T.size)) answer).2 with
    | some q =>
      rw [case] at result
      cases result
    | none =>
      rw [World.pooled, live]
      rfl

/-- A request that the pool does not serve leaves its books alone. -/
theorem step_allocate_aside (w : World) (A : Arena) (answer : Option Nat)
    (direct : ¬(n ≠ 0 ∧ n * T.size ≤ maxBytes)) :
    (A.serve (.allocate T n answer)).1 = A ∧
      (w.step (.allocate T n answer)).1.pooled = w.pooled ∧
      (w.step (.allocate T n answer)).1.pool.regions = w.pool.regions := by
  unfold Arena.serve
  by_cases zero : n = 0
  · have result : w.pool.allocate T n false [answer] = (.ok 0, w.pool) := if_pos zero
    simp only [if_pos zero, step_allocate_ok result]
    exact ⟨True.intro, True.intro, True.intro⟩
  have large : maxBytes < n * T.size := Nat.lt_of_not_le fun small => direct ⟨zero, small⟩
  by_cases wrap : addressSpace ≤ n * T.size
  · have result : w.pool.allocate T n false [answer] = (.error .badAlloc, w.pool) := by
      rw [Pool.allocate, if_neg zero, if_pos (Pool.maxSize_lt_iff.mpr wrap)]
    simp only [if_neg zero, if_pos wrap, step_allocate_error result]
    exact ⟨True.intro, True.intro, True.intro⟩
  have result := w.pool.allocate_of_large zero (Nat.lt_of_not_le wrap) large answer
  have regions : (w.pool.checked T).regions = w.pool.regions :=
    congrArg (List.filterMap _) Pool.requests_checked
  simp only [if_neg zero, if_neg wrap, if_pos large]
  cases answer with
  | none =>
    rw [step_allocate_error result]
    exact ⟨True.intro, rfl, regions⟩
  | some ptr =>
    have fits : ¬Block.Pooled ⟨T, n, ptr⟩ := Nat.not_le.mpr large
    rw [step_allocate_ok result, if_neg zero, pooled_cons, if_neg fits]
    exact ⟨True.intro, rfl, regions⟩

/-- A release leaves the regions alone. -/
theorem regions_deallocate (w : World) (T : ElemType) (p n : Nat) :
    (w.step (.deallocate T p n)).1.pool.regions = w.pool.regions := by
  have same : (w.pool.deallocate T p n).requests = w.pool.requests := by
    simp only [Pool.deallocate]
    split_ifs <;> rfl
  exact congrArg (List.filterMap _) same

end World

namespace Kept

open World

variable {refusals : Prop} {P : Arena → List Interval → List Interval → Prop} {w : World}
  {A : Arena} {e : Event} {es : List Event}

/-- A valid event keeps it. -/
theorem step (kept : Kept refusals P) (inv : w.Inv A) (valid : w.Valid e)
    (unrefused : refusals ∨ w.Unrefused e) (holds : P A w.pooled w.pool.regions) :
    P (A.serve e).1 (w.step e).1.pooled (w.step e).1.pool.regions := by
  cases e with
  | allocate T n answer =>
    by_cases pooled : n ≠ 0 ∧ n * T.size ≤ maxBytes
    · rcases pooled with ⟨positive, small⟩
      have granted := unrefused.imp_right (inv.kept_of_unrefused positive small)
      rw [A.serve_small positive small, inv.pooled_allocate positive small valid,
        pool_step_allocate, inv.regions_allocate positive small]
      exact kept.allocate (classOf_lt small) inv.ledger.aligned granted holds
    · rcases step_allocate_aside w A answer pooled with
        ⟨arena, live, regions⟩
      rwa [arena, live, regions]
  | deallocate T p n =>
    rw [w.regions_deallocate]
    by_cases null : p = 0
    · subst null
      rcases inv.step_deallocate_null (T := T) (n := n) with ⟨same, serve⟩
      rwa [same, serve]
    · have live : ⟨T, n, p⟩ ∈ w.live := valid.2.resolve_left null
      have positive : n ≠ 0 := inv.counted _ live
      have front := kept.perm (pooled_perm live) holds
      rw [pooled_cons] at front
      by_cases large : maxBytes < n * T.size
      · have serve : A.serve (.deallocate T p n) = (A, .done) := if_pos (Or.inr (Or.inr large))
        have direct : ¬Block.Pooled ⟨T, n, p⟩ := Nat.not_le.mpr large
        rw [serve]
        rwa [if_neg direct] at front
      · have serve : A.serve (.deallocate T p n) = (A.release (classOf (n * T.size)) p, .done) :=
          if_neg (by simp [positive, null, large])
        have pooled : Block.Pooled ⟨T, n, p⟩ := Nat.le_of_not_lt large
        rw [serve]
        rw [if_pos pooled, Block.span_of_pooled pooled positive] at front
        exact kept.release (classOf_lt pooled) front
  | write a v => exact holds

/-- So does a run. -/
theorem run (kept : Kept refusals P)
    (run : Admissible World.step (fun w e => w.Valid e ∧ (refusals ∨ w.Unrefused e)) w es)
    (inv : w.Inv A) (holds : P A w.pooled w.pool.regions) :
    (after World.step w es).Inv (after Arena.serve A es) ∧
      P (after Arena.serve A es) (after World.step w es).pooled
        (after World.step w es).pool.regions := by
  induction es generalizing w A with
  | nil => exact ⟨inv, holds⟩
  | cons e es ih =>
    exact ih run.2 (inv.step run.1.1).1 (kept.step inv run.1.1 run.1.2 holds)

/-- Whatever is refused, if refusals keep it. -/
theorem run_valid (kept : Kept True P) (run : Admissible World.step Valid w es) (inv : w.Inv A)
    (holds : P A w.pooled w.pool.regions) :
    (after World.step w es).Inv (after Arena.serve A es) ∧
      P (after Arena.serve A es) (after World.step w es).pooled
        (after World.step w es).pool.regions :=
  kept.run (run.mono fun _ _ valid => ⟨valid, Or.inl True.intro⟩) inv holds

/-- With nothing refused, even if refusals do not keep it. -/
theorem run_unrefused (kept : Kept False P)
    (run : Admissible World.step (fun w e => w.Valid e ∧ w.Unrefused e) w es) (inv : w.Inv A)
    (holds : P A w.pooled w.pool.regions) :
    (after World.step w es).Inv (after Arena.serve A es) ∧
      P (after Arena.serve A es) (after World.step w es).pooled
        (after World.step w es).pool.regions :=
  kept.run (run.mono fun _ _ ok => ⟨ok.1, Or.inr ok.2⟩) inv holds

end Kept

end TorchTest.PoolAlloc
