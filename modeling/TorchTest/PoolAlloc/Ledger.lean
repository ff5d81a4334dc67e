import TorchTest.Library.Counting
import TorchTest.PoolAlloc.Arena

/-!
# Every byte accounted for

`Ledger A live regions` balances the books of an arena: an address is covered by
the live blocks, the free blocks and the remainder together exactly as often as
by the regions granted, which is at most once. As an equation between counts it
does not care in which list a block is, so that every operation only has to say
which intervals it moves: `release` and `setAside` from one side of the free
lists to the other, `grow` a region into the remainder, `reuse` a free block into
it, and `carve` cuts the remainder up.
-/

namespace TorchTest.PoolAlloc

/-- The bytes of the blocks in the list of class `i`. -/
def blocks (i : Nat) (l : List Nat) : List Interval := l.map (⟨·, classSize i⟩)

/-- How often the free blocks of all classes cover an address. -/
def Arena.nodeCover (A : Arena) (x : Nat) : Nat :=
  ∑ i ∈ Finset.range freeListSize, cover (blocks i (A.lists i)) x

/-- What the system promises of the regions it granted: not null, 8-aligned,
inside the address space, and disjoint. -/
structure Granted (regions : List Interval) : Prop where
  apart : regions.Pairwise Interval.Apart
  bounds : ∀ r ∈ regions, 0 < r.start ∧ align ∣ r.start ∧ r.stop < addressSpace

instance (regions : List Interval) : Decidable (Granted regions) :=
  decidable_of_iff
    (regions.Pairwise Interval.Apart ∧
      ∀ r ∈ regions, 0 < r.start ∧ align ∣ r.start ∧ r.stop < addressSpace)
    ⟨fun ⟨apart, bounds⟩ => ⟨apart, bounds⟩, fun granted => ⟨granted.apart, granted.bounds⟩⟩

/-- The books of an arena, with the live blocks and the regions granted. -/
structure Ledger (A : Arena) (live regions : List Interval) : Prop where
  balanced : ∀ x, cover live x + A.nodeCover x + A.rem.count x = cover regions x
  granted : Granted regions
  heap : A.heapSize = totalLength regions
  aligned : align ∣ A.rem.length
  rem_lt : A.rem.stop < addressSpace

namespace Granted

variable {regions : List Interval}

theorem once (granted : Granted regions) : ∀ x, cover regions x ≤ 1 :=
  cover_le_one_iff.mpr (granted.apart.imp fun apart => apart.separate)

/-- All regions together are smaller than the address space. -/
theorem totalLength_lt (granted : Granted regions) : totalLength regions < addressSpace :=
  TorchTest.totalLength_lt granted.once (fun r member => (granted.bounds r member).1)
    (fun r member => (granted.bounds r member).2.2.le) (by decide)

/-- A covered address is neither null nor past the address space. -/
theorem bounds_of_cover (granted : Granted regions) {x : Nat} (covered : 0 < cover regions x) :
    0 < x ∧ x + 1 < addressSpace := by
  rcases cover_pos_iff.mp covered with ⟨r, member, inside⟩
  rcases granted.bounds r member with ⟨positive, _, upper⟩
  rw [Interval.mem_def] at inside
  unfold Interval.stop at upper
  omega

end Granted

/-- Intervals of two lists that together cover nothing twice are disjoint. -/
theorem separate_of_cover {L M : List Interval} (once : ∀ x, cover L x + cover M x ≤ 1)
    {I J : Interval} (left : I ∈ L) (right : J ∈ M) : I.Separate J := by
  intro x inI inJ
  have coverL : 0 < cover L x := cover_pos_iff.mpr ⟨I, left, inI⟩
  have coverM : 0 < cover M x := cover_pos_iff.mpr ⟨J, right, inJ⟩
  have := once x
  omega

namespace Arena

variable {A : Arena} {c i : Nat}

@[simp] theorem setList_self (A : Arena) (c : Nat) (l : List Nat) :
    (A.setList c l).lists c = l := Function.update_self ..

theorem setList_of_ne (A : Arena) (l : List Nat) (other : i ≠ c) :
    (A.setList c l).lists i = A.lists i := Function.update_of_ne other ..

/-- Replacing a list exchanges its blocks. -/
theorem nodeCover_setList (small : c < freeListSize) (l : List Nat) (x : Nat) :
    (A.setList c l).nodeCover x + cover (blocks c (A.lists c)) x =
      A.nodeCover x + cover (blocks c l) x := by
  have swap : ∀ i, cover (blocks i ((A.setList c l).lists i)) x =
      Function.update (fun i => cover (blocks i (A.lists i)) x) c (cover (blocks c l) x) i :=
    Function.apply_update (fun i l => cover (blocks i l) x) A.lists c l
  simp only [nodeCover, swap]
  exact sum_update_add (Finset.mem_range.mpr small) _ _

theorem cover_le_nodeCover (small : i < freeListSize) (x : Nat) :
    cover (blocks i (A.lists i)) x ≤ A.nodeCover x :=
  Finset.single_le_sum (f := fun i => cover (blocks i (A.lists i)) x)
    (fun _ _ => Nat.zero_le _) (Finset.mem_range.mpr small)

end Arena

/-! ## What is in the books -/

section

variable {A : Arena} {i p : Nat}

theorem node_within (live : List Interval) (small : i < freeListSize) (node : p ∈ A.lists i) :
    ∀ x ∈ Interval.mk p (classSize i), 0 < cover live x + A.nodeCover x + A.rem.count x := by
  intro x inside
  have covered : 0 < cover (blocks i (A.lists i)) x :=
    cover_pos_iff.mpr ⟨_, List.mem_map_of_mem node, inside⟩
  have part := Arena.cover_le_nodeCover (A := A) small x
  omega

theorem live_within (A : Arena) {live : List Interval} {b : Interval} (member : b ∈ live) :
    ∀ x ∈ b, 0 < cover live x + A.nodeCover x + A.rem.count x := by
  intro x inside
  have covered : 0 < cover live x := cover_pos_iff.mpr ⟨_, member, inside⟩
  omega

theorem rem_within (A : Arena) (live : List Interval) :
    ∀ x ∈ A.rem, 0 < cover live x + A.nodeCover x + A.rem.count x := by
  intro x inside
  have covered : A.rem.count x = 1 := Interval.count_of_mem inside
  omega

end

namespace Ledger

variable {A : Arena} {live regions : List Interval} {c i p : Nat} {rest : List Nat}

theorem once (ledger : Ledger A live regions) (x : Nat) :
    cover live x + A.nodeCover x + A.rem.count x ≤ 1 :=
  (ledger.balanced x).trans_le (ledger.granted.once x)

/-- The free blocks miss the live ones. -/
theorem node_separate_live (ledger : Ledger A live regions) (small : i < freeListSize)
    (node : p ∈ A.lists i) {b : Interval} (member : b ∈ live) :
    Interval.Separate ⟨p, classSize i⟩ b := by
  refine separate_of_cover (L := blocks i (A.lists i)) (fun x => ?_) (List.mem_map_of_mem node) member
  have part := Arena.cover_le_nodeCover (A := A) small x
  have all := ledger.once x
  omega

/-- The remainder misses the free blocks. -/
theorem rem_separate_node (ledger : Ledger A live regions) (small : i < freeListSize)
    (node : p ∈ A.lists i) : Interval.Separate A.rem ⟨p, classSize i⟩ := by
  refine separate_of_cover (L := [A.rem]) (M := blocks i (A.lists i)) (fun x => ?_)
    (List.mem_singleton_self _) (List.mem_map_of_mem node)
  have part := Arena.cover_le_nodeCover (A := A) small x
  have all := ledger.once x
  rw [cover_cons, cover_nil]
  omega

/-- The remainder misses the live blocks. -/
theorem rem_separate_live (ledger : Ledger A live regions) {b : Interval} (member : b ∈ live) :
    Interval.Separate A.rem b := by
  refine separate_of_cover (L := [A.rem]) (fun x => ?_) (List.mem_singleton_self _) member
  have all := ledger.once x
  rw [cover_cons, cover_nil]
  omega

/-- What lies outside the regions misses everything in the books. -/
theorem separate_of_outside (ledger : Ledger A live regions) {I J : Interval}
    (outside : ∀ r ∈ regions, I.Separate r)
    (within : ∀ x ∈ J, 0 < cover live x + A.nodeCover x + A.rem.count x) : J.Separate I := by
  intro x inJ inI
  have covered := within x inJ
  rw [ledger.balanced] at covered
  rcases cover_pos_iff.mp covered with ⟨r, member, inside⟩
  exact outside r member x inI inside

/-- An interval in the books lies inside the address space, and not at null. -/
theorem bounds_of_within (ledger : Ledger A live regions) {I : Interval} (positive : 0 < I.length)
    (within : ∀ x ∈ I, 0 < cover live x + A.nodeCover x + A.rem.count x) :
    0 < I.start ∧ I.stop < addressSpace := by
  have first := within I.start ⟨le_refl _, Nat.lt_add_of_pos_right positive⟩
  have last := within (I.start + I.length - 1) ⟨by omega, by omega⟩
  rw [ledger.balanced] at first last
  have lower := ledger.granted.bounds_of_cover first
  have upper := ledger.granted.bounds_of_cover last
  unfold Interval.stop
  omega

theorem node_bounds (ledger : Ledger A live regions) (small : i < freeListSize)
    (node : p ∈ A.lists i) : 0 < p ∧ p + classSize i < addressSpace :=
  ledger.bounds_of_within (I := ⟨p, classSize i⟩) (classSize_pos i) (node_within live small node)

theorem live_bounds (ledger : Ledger A live regions) {b : Interval} (member : b ∈ live)
    (positive : 0 < b.length) : 0 < b.start ∧ b.stop < addressSpace :=
  ledger.bounds_of_within positive (live_within A member)

theorem rem_pos (ledger : Ledger A live regions) (positive : 0 < A.rem.length) :
    0 < A.rem.start :=
  (ledger.bounds_of_within positive (rem_within A live)).1

theorem heap_lt (ledger : Ledger A live regions) : A.heapSize < addressSpace :=
  ledger.heap ▸ ledger.granted.totalLength_lt

/-! ## Operations -/

theorem init : Ledger Arena.init [] [] where
  balanced x := by simp [Arena.nodeCover, Arena.init, blocks]
  granted := ⟨.nil, fun _ member => nomatch member⟩
  heap := rfl
  aligned := ⟨0, rfl⟩
  rem_lt := by decide

/-- Only the cover by the live blocks matters. -/
theorem perm {live' : List Interval} (ledger : Ledger A live regions) (perm : live.Perm live') :
    Ledger A live' regions :=
  { ledger with balanced := fun x => by rw [← cover_perm perm, ledger.balanced] }

/-- A live block becomes a free one. -/
theorem release (ledger : Ledger A (⟨p, classSize c⟩ :: live) regions) (small : c < freeListSize) :
    Ledger (A.release c p) live regions where
  balanced x := by
    have moved := Arena.nodeCover_setList (A := A) small (p :: A.lists c) x
    have books := ledger.balanced x
    simp only [blocks, List.map_cons, cover_cons] at moved books
    change cover live x + (A.release c p).nodeCover x + A.rem.count x = _
    unfold Arena.release
    omega
  granted := ledger.granted
  heap := ledger.heap
  aligned := ledger.aligned
  rem_lt := ledger.rem_lt

/-- A free block becomes a live one. -/
theorem pop (ledger : Ledger A live regions) (small : c < freeListSize)
    (head : A.lists c = p :: rest) :
    Ledger (A.setList c rest) (⟨p, classSize c⟩ :: live) regions where
  balanced x := by
    have moved := Arena.nodeCover_setList (A := A) small rest x
    have books := ledger.balanced x
    simp only [head, blocks, List.map_cons, cover_cons] at moved ⊢
    change _ + (A.setList c rest).nodeCover x + A.rem.count x = _
    omega
  granted := ledger.granted
  heap := ledger.heap
  aligned := ledger.aligned
  rem_lt := ledger.rem_lt

/-- The remainder becomes a free block. -/
theorem setAside (ledger : Ledger A live regions) (small : A.rem.length ≤ maxBytes) :
    Ledger A.setAside live regions := by
  by_cases some : 0 < A.rem.length
  · have size := classSize_classOf some ledger.aligned
    simp only [Arena.setAside, if_pos some]
    refine
      { balanced := fun x => ?_, granted := ledger.granted, heap := ledger.heap,
        aligned := ⟨0, rfl⟩, rem_lt := Nat.two_pow_pos 64 }
    have moved := Arena.nodeCover_setList (A := A) (classOf_lt small)
      (A.rem.start :: A.lists (classOf A.rem.length)) x
    have books := ledger.balanced x
    simp only [blocks, List.map_cons, cover_cons, size] at moved
    have whole : A.rem.count x = Interval.count ⟨A.rem.start, A.rem.length⟩ x := rfl
    rw [Interval.count_empty]
    change cover live x + (A.release _ _).nodeCover x + 0 = _
    unfold Arena.release
    omega
  · have zero : A.rem.length = 0 := Nat.eq_zero_of_not_pos some
    simp only [Arena.setAside, if_neg some]
    refine
      { balanced := fun x => ?_, granted := ledger.granted, heap := ledger.heap,
        aligned := ⟨0, rfl⟩, rem_lt := Nat.two_pow_pos 64 }
    have books := ledger.balanced x
    have empty : A.rem.count x = 0 := by
      rw [← Interval.count_empty A.rem.start x, ← zero]
    rw [Interval.count_empty, ← books, empty]
    rfl

/-- A granted region becomes the remainder. -/
theorem grow (ledger : Ledger A live regions) (none : A.rem.length = 0) {base : Nat}
    (granted : Granted (⟨base, A.wanted c⟩ :: regions)) :
    Ledger (A.grow c base) live (⟨base, A.wanted c⟩ :: regions) where
  balanced x := by
    have books := ledger.balanced x
    have empty : A.rem.count x = 0 := by
      rw [← Interval.count_empty A.rem.start x, ← none]
    rw [cover_cons]
    change cover live x + A.nodeCover x + Interval.count ⟨base, A.wanted c⟩ x = _
    omega
  granted := granted
  heap := by
    rw [totalLength_cons, ← ledger.heap, Nat.add_comm]
    rfl
  aligned := by
    change align ∣ A.wanted c
    simp only [Arena.wanted, classSize, align]
    omega
  rem_lt := (granted.bounds _ List.mem_cons_self).2.2

/-- A free block becomes the remainder. -/
theorem reuse (ledger : Ledger A live regions) (none : A.rem.length = 0) (small : i < freeListSize)
    (some : A.lists i = p :: rest) : Ledger (A.reuse i) live regions := by
  have bounds := ledger.node_bounds small (some ▸ List.mem_cons_self)
  have same : A.reuse i = { A.setList i rest with rem := ⟨p, classSize i⟩ } := by
    rw [Arena.reuse, some]
    rfl
  rw [same]
  refine
    { balanced := fun x => ?_, granted := ledger.granted, heap := ledger.heap,
      aligned := Nat.dvd_mul_right .., rem_lt := bounds.2 }
  have moved := Arena.nodeCover_setList (A := A) small rest x
  have books := ledger.balanced x
  have empty : A.rem.count x = 0 := by
    rw [← Interval.count_empty A.rem.start x, ← none]
  simp only [some, blocks, List.map_cons, cover_cons] at moved
  change cover live x + (A.setList i rest).nodeCover x + Interval.count ⟨p, classSize i⟩ x = _
  omega

end Ledger

/-! ## Carving -/

namespace Arena

variable {A : Arena} {c : Nat}

theorem carved_pos (room : classSize c ≤ A.rem.length) : 0 < A.carved c :=
  Nat.lt_min.mpr ⟨by decide, Nat.div_pos room (classSize_pos c)⟩

theorem carved_mul_le (A : Arena) (c : Nat) : A.carved c * classSize c ≤ A.rem.length :=
  (Nat.mul_le_mul_right _ (Nat.min_le_right _ _)).trans (Nat.div_mul_le_self _ _)

end Arena

/-- The first carved block goes to the caller, the others to the list. -/
theorem Ledger.carve {A : Arena} {live regions : List Interval} {c : Nat}
    (ledger : Ledger A live regions) (small : c < freeListSize) (none : A.lists c = [])
    (room : classSize c ≤ A.rem.length) :
    Ledger (A.carve c) (⟨A.rem.start, classSize c⟩ :: live) regions := by
  have fits := A.carved_mul_le c
  have bound := ledger.rem_lt
  refine
    { balanced := fun x => ?_, granted := ledger.granted, heap := ledger.heap, aligned := ?_,
      rem_lt := ?_ }
  · have moved := Arena.nodeCover_setList (A := A) small
      (progression (A.rem.start + classSize c) (classSize c) (A.carved c - 1)) x
    have books := ledger.balanced x
    have tiles := cover_progression A.rem.start (classSize c) (A.carved c) x
    have positive := Arena.carved_pos room
    have first : A.carved c = A.carved c - 1 + 1 := by omega
    rw [first, progression_succ, ← first] at tiles
    have split := Interval.count_split A.rem.start (A.carved c * classSize c)
      (A.rem.length - A.carved c * classSize c) x
    rw [Nat.add_sub_cancel' fits] at split
    simp only [none, blocks, List.map_nil, cover_nil, List.map_cons, cover_cons] at moved tiles
    rw [cover_cons]
    change _ + cover live x + (A.setList c _).nodeCover x +
      Interval.count ⟨A.rem.start + A.carved c * classSize c, _⟩ x = _
    have whole : A.rem.count x = Interval.count ⟨A.rem.start, A.rem.length⟩ x := rfl
    omega
  · change align ∣ A.rem.length - A.carved c * classSize c
    exact Nat.dvd_sub ledger.aligned ((Nat.dvd_mul_right align (c + 1)).mul_left _)
  · change A.rem.start + A.carved c * classSize c + (A.rem.length - A.carved c * classSize c) < _
    unfold Interval.stop at bound
    omega

/-! ## Obtaining an interval -/

namespace Arena

variable {A : Arena} {c i : Nat}

@[simp] theorem length_rem_setAside (A : Arena) : A.setAside.rem.length = 0 := by
  unfold setAside
  split <;> rfl

@[simp] theorem heapSize_setAside (A : Arena) : A.setAside.heapSize = A.heapSize := by
  unfold setAside
  split <;> rfl

@[simp] theorem wanted_setAside (A : Arena) (c : Nat) : A.setAside.wanted c = A.wanted c := by
  simp [wanted]

/-- A left-over piece is filed below the class that it is too short for. -/
theorem lists_setAside (A : Arena) (short : A.rem.length < classSize c)
    (aligned : align ∣ A.rem.length) (above : c ≤ i) : A.setAside.lists i = A.lists i := by
  unfold setAside
  by_cases some : 0 < A.rem.length
  · have size := classSize_classOf some aligned
    have below : classOf A.rem.length < c := by
      rw [← size] at short
      exact Nat.lt_of_succ_lt_succ (Nat.lt_of_mul_lt_mul_left short)
    rw [if_pos some]
    exact setList_of_ne A _ (below.trans_le above).ne'
  · rw [if_neg some]

/-- The class found is the first one from `c` on that has a free block. -/
theorem firstFree_eq_some (found : A.firstFree c = some i) :
    c ≤ i ∧ i < freeListSize ∧ A.lists i ≠ [] := by
  have member := List.mem_of_find?_eq_some found
  have some := List.find?_some found
  rw [List.mem_range'_1] at member
  simp only [Bool.not_eq_true', List.isEmpty_eq_false_iff] at some
  exact ⟨member.1, by omega, some⟩

/-- Obtaining an interval leaves the list of the class empty. -/
theorem lists_obtain (A : Arena) (answer : Option Nat) (none : A.lists c = [])
    (aligned : align ∣ A.rem.length) : (A.obtain c answer).1.lists c = [] := by
  unfold obtain
  by_cases room : classSize c ≤ A.rem.length
  · rw [if_pos room]
    exact none
  · have aside := lists_setAside A (Nat.lt_of_not_le room) aligned (le_refl c)
    rw [if_neg room]
    cases answer with
    | some base => exact aside.trans none
    | none =>
      cases found : A.setAside.firstFree c with
      | none => exact aside.trans none
      | some i =>
        rcases firstFree_eq_some found with ⟨_, _, nonempty⟩
        have other : c ≠ i := by
          rintro rfl
          exact nonempty (aside.trans none)
        exact (setList_of_ne A.setAside _ other).trans (aside.trans none)

/-- An interval obtained holds a block. -/
theorem room_obtain (A : Arena) (c : Nat) (answer : Option Nat) (ok : (A.obtain c answer).2 = true) :
    classSize c ≤ (A.obtain c answer).1.rem.length := by
  unfold obtain at ok ⊢
  by_cases room : classSize c ≤ A.rem.length
  · simpa only [if_pos room] using room
  · rw [if_neg room] at ok ⊢
    cases answer with
    | some base =>
      change classSize c ≤ A.setAside.wanted c
      unfold wanted
      omega
    | none =>
      cases found : A.setAside.firstFree c with
      | none => simp [found] at ok
      | some i =>
        rcases firstFree_eq_some found with ⟨above, _, _⟩
        exact Nat.mul_le_mul_left align (Nat.succ_le_succ above)

/-- The regions after an interval was obtained. -/
def regionsAfter (A : Arena) (c : Nat) (answer : Option Nat) (regions : List Interval) :
    List Interval :=
  if classSize c ≤ A.rem.length then regions
  else (answer.map fun base => ⟨base, A.wanted c⟩).toList ++ regions

end Arena

/-- Obtaining an interval keeps the books balanced. -/
theorem Ledger.obtain {A : Arena} {live regions : List Interval} {c : Nat}
    (ledger : Ledger A live regions) (small : c < freeListSize) {answer : Option Nat}
    (granted : Granted (A.regionsAfter c answer regions)) :
    Ledger (A.obtain c answer).1 live (A.regionsAfter c answer regions) := by
  unfold Arena.obtain Arena.regionsAfter at *
  by_cases room : classSize c ≤ A.rem.length
  · simpa only [if_pos room] using ledger
  · have short : A.rem.length ≤ maxBytes := (Nat.le_of_not_le room).trans (classSize_lt small)
    have aside := ledger.setAside short
    simp only [if_neg room] at granted ⊢
    cases answer with
    | some base =>
      have wanted := A.wanted_setAside c
      simp only [Option.map_some, Option.toList_some, List.singleton_append] at granted ⊢
      rw [← wanted] at granted ⊢
      exact aside.grow A.length_rem_setAside granted
    | none =>
      simp only [Option.map_none, Option.toList_none, List.nil_append]
      cases found : A.setAside.firstFree c with
      | none => exact aside
      | some i =>
        rcases Arena.firstFree_eq_some found with ⟨_, inside, nonempty⟩
        rcases List.exists_cons_of_ne_nil nonempty with ⟨p, rest, some⟩
        exact aside.reuse A.length_rem_setAside inside some

/-! ## Requests -/

namespace Arena

variable {A : Arena} {c p : Nat} {answer : Option Nat} {rest : List Nat}

/-- A request served from a list. -/
theorem allocate_of_cons (list : A.lists c = p :: rest) (answer : Option Nat) :
    A.allocate c answer = (A.setList c rest, some p) := by
  rw [allocate, list]

/-- A request to an empty list. -/
theorem allocate_of_nil (empty : A.lists c = []) (answer : Option Nat) :
    A.allocate c answer =
      match A.obtain c answer with
      | (A', true) => (A'.carve c, some A'.rem.start)
      | (A', false) => (A', none) := by
  rcases obtained : A.obtain c answer with ⟨A', _ | _⟩
  · simp [allocate, empty, obtained]
  · simp [allocate, empty, obtained]

/-- The block that a request hands out, if it does. -/
def taken (A : Arena) (c : Nat) (answer : Option Nat) : List Interval :=
  (A.allocate c answer).2.toList.map (⟨·, classSize c⟩)

/-- The regions after a request. -/
def regionsOf (A : Arena) (c : Nat) (answer : Option Nat) (regions : List Interval) :
    List Interval :=
  if A.lists c = [] then A.regionsAfter c answer regions else regions

end Arena

namespace Ledger

variable {A : Arena} {live regions : List Interval} {c p : Nat} {answer : Option Nat}

/-- A request keeps the books balanced. -/
theorem allocate (ledger : Ledger A live regions) (small : c < freeListSize)
    (granted : Granted (A.regionsOf c answer regions)) :
    Ledger (A.allocate c answer).1 (A.taken c answer ++ live) (A.regionsOf c answer regions) := by
  unfold Arena.taken Arena.regionsOf at *
  by_cases empty : A.lists c = []
  · rw [if_pos empty] at granted ⊢
    have obtained := ledger.obtain small granted
    have empty' := A.lists_obtain (c := c) answer empty ledger.aligned
    have room := A.room_obtain c answer
    rw [A.allocate_of_nil empty]
    rcases case : A.obtain c answer with ⟨A', ok⟩
    rw [case] at obtained empty' room
    cases ok with
    | true => exact obtained.carve small empty' (room rfl)
    | false => exact obtained
  · rcases List.exists_cons_of_ne_nil empty with ⟨p, rest, list⟩
    rw [if_neg empty, A.allocate_of_cons list]
    exact ledger.pop small list

/-- A block handed out is not null. -/
theorem pos_of_allocate (ledger : Ledger A live regions) (small : c < freeListSize)
    (granted : Granted (A.regionsOf c answer regions)) (some : (A.allocate c answer).2 = some p) :
    0 < p := by
  have member : ⟨p, classSize c⟩ ∈ A.taken c answer ++ live := by
    simp [Arena.taken, some]
  exact ((ledger.allocate small granted).live_bounds member (classSize_pos c)).1

end Ledger

end TorchTest.PoolAlloc
