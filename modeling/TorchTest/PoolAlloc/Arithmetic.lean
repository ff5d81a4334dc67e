import TorchTest.PoolAlloc.Refill

/-!
# The `size_t` computations of a refill

For each function behind `_M_refill`, the additions, subtractions and products that
a call makes on `size_t` and on pointers, with the operands it makes them on
(`refillOps` and its like follow the functions of the source branch by branch).
They are the ones that the call evaluates: `refillTraced` is `_M_refill` over an arithmetic that
notes what it computes, and comes to the same as `refill` with these notes (`refillTraced_eq`).
`Sim.fits_refillOps`: with balanced books none of them wraps.
-/

namespace TorchTest

/-- A computation on `size_t` or on a pointer. -/
inductive SizeT.Op
  | add (a b : Nat)
  | sub (a b : Nat)
  | mul (a b : Nat)
  deriving DecidableEq, Repr

/-- The computation does not wrap. -/
def SizeT.Op.Fits : SizeT.Op → Prop
  | .add a b => a + b < addressSpace
  | .sub a b => b ≤ a
  | .mul a b => a * b < addressSpace

instance : ∀ op : SizeT.Op, Decidable op.Fits
  | .add a b => inferInstanceAs (Decidable (a + b < addressSpace))
  | .sub a b => inferInstanceAs (Decidable (b ≤ a))
  | .mul a b => inferInstanceAs (Decidable (a * b < addressSpace))

/-- What the computation gives. -/
def SizeT.Op.eval : SizeT.Op → Nat
  | .add a b => SizeT.add a b
  | .sub a b => SizeT.sub a b
  | .mul a b => SizeT.mul a b

/-- A value, with the computations made for it in order. -/
structure Traced (β : Type) where
  value : β
  ops : List SizeT.Op

namespace Traced

instance : Monad Traced where
  pure v := ⟨v, []⟩
  bind x f := ⟨(f x.value).value, x.ops ++ (f x.value).ops⟩

/-- One computation. -/
def op (o : SizeT.Op) : Traced Nat := ⟨o.eval, [o]⟩

theorem pure_eq {β : Type} (v : β) : (pure v : Traced β) = ⟨v, []⟩ := rfl

theorem bind_eq {β γ : Type} (v : β) (ops : List SizeT.Op) (f : β → Traced γ) :
    (⟨v, ops⟩ : Traced β) >>= f = ⟨(f v).value, ops ++ (f v).ops⟩ := rfl

end Traced

namespace PoolAlloc

/-- In `_M_get_free_list`. -/
def getFreeListOps (bytes : Nat) : List SizeT.Op :=
  [.add bytes align, .sub (SizeT.add bytes align) 1,
    .sub (SizeT.sub (SizeT.add bytes align) 1 / align) 1]

/-- In `_M_round_up`. -/
def roundUpOps (bytes : Nat) : List SizeT.Op :=
  [.add bytes align, .sub (SizeT.add bytes align) 1]

namespace Pool

/-- In the search of `_M_allocate_chunk`, from `i` bytes on. -/
def reclaimOps (s : Pool) : Nat → Nat → List SizeT.Op
  | 0, _ => []
  | turns + 1, i =>
      if i ≤ maxBytes then
        getFreeListOps i ++
          if s.freeList (getFreeList i) ≠ 0 then [.add (s.freeList (getFreeList i)) i]
          else .add i align :: s.reclaimOps turns (SizeT.add i align)
      else []

/-- In `_M_allocate_chunk(__n, __nobjs)`. -/
def allocateChunkOps (n nobjs : Nat) : Nat → List (Option Nat) → Pool → List SizeT.Op
  | 0, _, _ => []
  | fuel + 1, answers, s =>
      let totalBytes := SizeT.mul n nobjs
      let bytesLeft := SizeT.sub s.endFree s.startFree
      [.mul n nobjs, .sub s.endFree s.startFree] ++
        if totalBytes ≤ bytesLeft then [.add s.startFree totalBytes]
        else if n ≤ bytesLeft then
          let nobjs := bytesLeft / n
          [.mul n nobjs, .add s.startFree (SizeT.mul n nobjs)]
        else
          let heap := s.heapSize >>> 4
          let bytesToGet := SizeT.add (SizeT.mul 2 totalBytes) (roundUp heap)
          (if 0 < bytesLeft then getFreeListOps bytesLeft else []) ++ roundUpOps heap ++
            [.mul 2 totalBytes, .add (SizeT.mul 2 totalBytes) (roundUp heap)] ++
            let s := s.setAside
            match answers with
            | [] => []
            | some base :: answers =>
                [.add s.heapSize bytesToGet, .add base bytesToGet] ++
                  allocateChunkOps n nobjs fuel answers
                    { s with
                      startFree := base
                      endFree := SizeT.add base bytesToGet
                      heapSize := SizeT.add s.heapSize bytesToGet
                      requests := (bytesToGet, some base) :: s.requests }
            | none :: answers =>
                let s := { s with requests := (bytesToGet, none) :: s.requests }
                s.reclaimOps (freeListSize + 1) n ++
                  match s.reclaim (freeListSize + 1) n with
                  | some (some s) => allocateChunkOps n nobjs fuel answers s
                  | _ => []

/-- In the loop of `_M_refill`. -/
def linkObjectsOps (n nobjs : Nat) : Nat → Nat → Nat → List SizeT.Op
  | 0, _, _ => []
  | fuel + 1, i, currentObj =>
      .add currentObj n ::
        if nobjs - 1 = i then [] else linkObjectsOps n nobjs fuel (i + 1) (SizeT.add currentObj n)

/-- In `_M_refill(__n)`, with the call of `_M_allocate_chunk`. -/
def refillOps (n : Nat) (answers : List (Option Nat)) (s : Pool) : List SizeT.Op :=
  allocateChunkOps n 20 3 answers s ++
    match allocateChunk n 20 3 answers s with
    | (.ok (chunk, nobjs), _) =>
        if nobjs = 1 then []
        else
          getFreeListOps n ++ .add chunk n :: linkObjectsOps n nobjs nobjs 1 (SizeT.add chunk n)
    | (.error _, _) => []

end Pool

/-! ## They are those of the code -/

section

open Traced (op)

/-- `_M_get_free_list`. -/
def getFreeListTraced (bytes : Nat) : Traced Nat := do
  let sum ← op (.add bytes align)
  let less ← op (.sub sum 1)
  op (.sub (less / align) 1)

/-- `_M_round_up`. -/
def roundUpTraced (bytes : Nat) : Traced Nat := do
  let sum ← op (.add bytes align)
  let less ← op (.sub sum 1)
  return less &&& (addressSpace - 1 ^^^ (align - 1))

theorem getFreeListTraced_eq (bytes : Nat) :
    getFreeListTraced bytes = ⟨getFreeList bytes, getFreeListOps bytes⟩ := rfl

theorem roundUpTraced_eq (bytes : Nat) :
    roundUpTraced bytes = ⟨roundUp bytes, roundUpOps bytes⟩ := rfl

namespace Pool

/-- The left-over piece is filed. -/
def setAsideTraced (s : Pool) (bytesLeft : Nat) : Traced Pool := do
  if 0 < bytesLeft then
    let list ← getFreeListTraced bytesLeft
    return s.push list s.startFree
  else return s

/-- The search of `_M_allocate_chunk`. -/
def reclaimTraced (s : Pool) : Nat → Nat → Traced (Option (Option Pool))
  | 0, _ => return none
  | turns + 1, i => do
      if i ≤ maxBytes then
        let list ← getFreeListTraced i
        let p := s.freeList list
        if p ≠ 0 then
          let endFree ← op (.add p i)
          return some (some { s.pop list p with startFree := p, endFree })
        else
          let i ← op (.add i align)
          s.reclaimTraced turns i
      else return some none

/-- `_M_allocate_chunk(__n, __nobjs)`. -/
def allocateChunkTraced (n nobjs : Nat) :
    Nat → List (Option Nat) → Pool → Traced (Except Failure (Nat × Nat) × Pool)
  | 0, _, s => return (.error .outOfFuel, s)
  | fuel + 1, answers, s => do
      let totalBytes ← op (.mul n nobjs)
      let bytesLeft ← op (.sub s.endFree s.startFree)
      if totalBytes ≤ bytesLeft then
        let startFree ← op (.add s.startFree totalBytes)
        return (.ok (s.startFree, nobjs), { s with startFree })
      else if n ≤ bytesLeft then
        let nobjs := bytesLeft / n
        let totalBytes ← op (.mul n nobjs)
        let startFree ← op (.add s.startFree totalBytes)
        return (.ok (s.startFree, nobjs), { s with startFree })
      else
        let s ← s.setAsideTraced bytesLeft
        let rounded ← roundUpTraced (s.heapSize >>> 4)
        let twice ← op (.mul 2 totalBytes)
        let bytesToGet ← op (.add twice rounded)
        match answers with
        | [] => return (.error .outOfAnswers, s)
        | some base :: answers =>
            let heapSize ← op (.add s.heapSize bytesToGet)
            let endFree ← op (.add base bytesToGet)
            allocateChunkTraced n nobjs fuel answers
              { s with startFree := base, endFree, heapSize
                       requests := (bytesToGet, some base) :: s.requests }
        | none :: answers =>
            let s := { s with requests := (bytesToGet, none) :: s.requests }
            match ← s.reclaimTraced (freeListSize + 1) n with
            | none => return (.error .outOfFuel, s)
            | some (some s) => allocateChunkTraced n nobjs fuel answers s
            | some none => return (.error .badAlloc, { s with startFree := 0, endFree := 0 })

/-- The loop of `_M_refill`. -/
def linkObjectsTraced (n nobjs : Nat) : Nat → Nat → Nat → Machine → Traced (Option Machine)
  | 0, _, _, _ => return none
  | fuel + 1, i, currentObj, m => do
      let nextObj ← op (.add currentObj n)
      if nobjs - 1 = i then return some (m.storePtr currentObj 0)
      else linkObjectsTraced n nobjs fuel (i + 1) nextObj (m.storePtr currentObj nextObj)

/-- `_M_refill(__n)`. -/
def refillTraced (n : Nat) (answers : List (Option Nat)) (s : Pool) :
    Traced (Except Failure Nat × Pool) := do
  match ← allocateChunkTraced n 20 3 answers s with
  | (.error e, s) => return (.error e, s)
  | (.ok (chunk, nobjs), s) =>
      if nobjs = 1 then return (.ok chunk, s)
      else
        let list ← getFreeListTraced n
        let nextObj ← op (.add chunk n)
        let s := { s with freeList := Function.update s.freeList list nextObj }
        match ← linkObjectsTraced n nobjs nobjs 1 nextObj s.machine with
        | none => return (.error .outOfFuel, s)
        | some m => return (.ok chunk, { s with machine := m })

theorem setAsideTraced_eq (s : Pool) :
    s.setAsideTraced (SizeT.sub s.endFree s.startFree) =
      ⟨s.setAside, if 0 < SizeT.sub s.endFree s.startFree then
        getFreeListOps (SizeT.sub s.endFree s.startFree) else []⟩ := by
  rw [setAsideTraced, setAside]
  split_ifs <;> rfl

theorem reclaimTraced_eq (s : Pool) (turns i : Nat) :
    s.reclaimTraced turns i = ⟨s.reclaim turns i, s.reclaimOps turns i⟩ := by
  induction turns generalizing i with
  | zero => rfl
  | succ turns ih =>
    rw [reclaimTraced, reclaim, reclaimOps]
    by_cases small : i ≤ maxBytes
    · simp only [if_pos small, getFreeListTraced_eq, Traced.bind_eq]
      by_cases found : s.freeList (getFreeList i) = 0
      · rw [if_neg (not_not_intro found), if_neg (not_not_intro found),
          if_neg (not_not_intro found), op, Traced.bind_eq, ih]
        rfl
      · rw [if_pos found, if_pos found, if_pos found]
        rfl
    · rw [if_neg small, if_neg small, if_neg small]
      rfl

theorem allocateChunkTraced_eq (n nobjs fuel : Nat) (answers : List (Option Nat)) (s : Pool) :
    allocateChunkTraced n nobjs fuel answers s =
      ⟨allocateChunk n nobjs fuel answers s, allocateChunkOps n nobjs fuel answers s⟩ := by
  induction fuel generalizing answers s with
  | zero => rfl
  | succ fuel ih =>
    rw [allocateChunkTraced, allocateChunk, allocateChunkOps]
    simp only [op, SizeT.Op.eval, Traced.bind_eq]
    by_cases all : SizeT.mul n nobjs ≤ SizeT.sub s.endFree s.startFree
    · simp only [if_pos all]
      rfl
    · by_cases some : n ≤ SizeT.sub s.endFree s.startFree
      · simp only [if_neg all, if_pos some]
        rfl
      · simp only [if_neg all, if_neg some, setAsideTraced_eq, roundUpTraced_eq, Traced.bind_eq]
        cases answers with
        | nil => simp [Traced.pure_eq]
        | cons answer answers =>
          cases answer with
          | some base => simp [ih]
          | none =>
            simp only [reclaimTraced_eq, Traced.bind_eq, heapSize_setAside]
            generalize reclaim _ (freeListSize + 1) n = found
            rcases found with _ | _ | s'
            · simp [Traced.pure_eq]
            · simp [Traced.pure_eq]
            · simp [ih]

theorem linkObjectsTraced_eq (n nobjs fuel i currentObj : Nat) (m : Machine) :
    linkObjectsTraced n nobjs fuel i currentObj m =
      ⟨linkObjects n nobjs fuel i currentObj m, linkObjectsOps n nobjs fuel i currentObj⟩ := by
  induction fuel generalizing i currentObj m with
  | zero => rfl
  | succ fuel ih =>
    rw [linkObjectsTraced, linkObjects, linkObjectsOps, op, Traced.bind_eq]
    split_ifs with last
    · rfl
    · rw [ih]
      rfl

/-- The computations of a refill are those that are listed. -/
theorem refillTraced_eq (n : Nat) (answers : List (Option Nat)) (s : Pool) :
    s.refillTraced n answers = ⟨s.refill n answers, s.refillOps n answers⟩ := by
  rw [refillTraced, refill, refillOps, allocateChunkTraced_eq, Traced.bind_eq]
  rcases allocateChunk n 20 3 answers s with ⟨⟨e⟩ | ⟨chunk, nobjs⟩, s'⟩
  · simp [Traced.pure_eq]
  · by_cases one : nobjs = 1
    · simp [one, Traced.pure_eq]
    · simp only [if_neg one, getFreeListTraced_eq, op, SizeT.Op.eval, Traced.bind_eq,
        linkObjectsTraced_eq]
      cases linkObjects n nobjs nobjs 1 (SizeT.add chunk n) s'.machine <;>
        simp [Traced.pure_eq]

end Pool

end

/-! ## None of them wraps -/

theorem fits_getFreeListOps {bytes : Nat} (positive : 0 < bytes) (small : bytes ≤ maxBytes) :
    ∀ op ∈ getFreeListOps bytes, op.Fits := by
  have bound : bytes + 8 < addressSpace :=
    (Nat.add_le_add_right small 8).trans_lt (by decide)
  have less := add_align_sub_one bound
  have sum : SizeT.add bytes align = bytes + 8 := SizeT.add_eq bound
  simp only [getFreeListOps, less]
  simp only [sum, List.forall_mem_cons, SizeT.Op.Fits, align]
  exact ⟨bound, by omega, by omega, fun op member => nomatch member⟩

theorem fits_roundUpOps {bytes : Nat} (bound : bytes + 8 < addressSpace) :
    ∀ op ∈ roundUpOps bytes, op.Fits := by
  have sum : SizeT.add bytes align = bytes + 8 := SizeT.add_eq bound
  simp only [roundUpOps, List.forall_mem_cons, SizeT.Op.Fits, sum, align]
  exact ⟨bound, by omega, fun op member => nomatch member⟩

/-- The loop of `_M_refill` stays inside the chunk. -/
theorem fits_linkObjectsOps {n nobjs fuel i k p : Nat} (turns : nobjs - 1 = i + k)
    (bound : p + (k + 1) * n < addressSpace) :
    ∀ op ∈ Pool.linkObjectsOps n nobjs fuel i p, op.Fits := by
  induction k generalizing fuel i p with
  | zero =>
    cases fuel with
    | zero => exact fun op member => nomatch member
    | succ fuel =>
      rw [Nat.zero_add, Nat.one_mul] at bound
      rw [Pool.linkObjectsOps, if_pos (show nobjs - 1 = i from turns)]
      exact List.forall_mem_singleton.mpr bound
  | succ k ih =>
    cases fuel with
    | zero => exact fun op member => nomatch member
    | succ fuel =>
      rw [Nat.succ_mul] at bound
      have next : p + n < addressSpace := by omega
      rw [Pool.linkObjectsOps, if_neg (by omega), SizeT.add_eq next]
      exact List.forall_mem_cons.mpr ⟨next, ih (by omega) (by omega)⟩

namespace Sim

variable {s : Pool} {A : Arena} {live regions : List Interval} {c : Nat} {answer : Option Nat}

/-- The first two computations of every call. -/
theorem fits_entryOps (sim : Sim s A) (small : c < freeListSize) :
    ∀ op ∈ [SizeT.Op.mul (classSize c) 20, .sub s.endFree s.startFree], op.Fits := by
  have product : classSize c * 20 < addressSpace :=
    (Nat.mul_le_mul_right 20 (classSize_lt small)).trans_lt (by decide)
  have ordered : s.startFree ≤ s.endFree := by
    rw [sim.start, sim.stop]
    exact Nat.le_add_right ..
  exact List.forall_mem_cons.mpr ⟨product, List.forall_mem_singleton.mpr ordered⟩

/-- A call that carves the remainder. -/
theorem fits_ops_of_room (sim : Sim s A) (ledger : Ledger A live regions)
    (small : c < freeListSize) (room : classSize c ≤ A.rem.length) (fuel : Nat)
    (answers : List (Option Nat)) :
    ∀ op ∈ Pool.allocateChunkOps (classSize c) 20 (fuel + 1) answers s, op.Fits := by
  have bound := ledger.rem_lt
  have whole := Nat.mul_div_le A.rem.length (classSize c)
  unfold Interval.stop at bound
  rw [Pool.allocateChunkOps]
  refine List.forall_mem_append.mpr ⟨sim.fits_entryOps small, ?_⟩
  simp only [mul_twenty small, sim.bytesLeft ledger]
  rw [sim.start]
  by_cases all : classSize c * 20 ≤ A.rem.length
  · rw [if_pos all]
    refine List.forall_mem_singleton.mpr ?_
    change A.rem.start + classSize c * 20 < addressSpace
    omega
  · have product : classSize c * (A.rem.length / classSize c) < addressSpace := by omega
    rw [if_neg all, if_pos room, SizeT.mul_eq product]
    refine List.forall_mem_cons.mpr ⟨product, List.forall_mem_singleton.mpr ?_⟩
    change A.rem.start + classSize c * (A.rem.length / classSize c) < addressSpace
    omega

/-- Up to the answer of the system. -/
theorem fits_requestOps (sim : Sim s A) (ledger : Ledger A live regions)
    (small : c < freeListSize) (short : A.rem.length < classSize c) :
    ∀ op ∈ (if 0 < SizeT.sub s.endFree s.startFree then
          getFreeListOps (SizeT.sub s.endFree s.startFree) else []) ++
        roundUpOps (s.heapSize >>> 4) ++
        [.mul 2 (SizeT.mul (classSize c) 20),
          .add (SizeT.mul 2 (SizeT.mul (classSize c) 20)) (roundUp (s.heapSize >>> 4))],
      SizeT.Op.Fits op := by
  have space : addressSpace = 18446744073709551616 := rfl
  have size := classSize_lt small
  have heap := ledger.heap_lt
  simp only [maxBytes] at size
  rw [sim.bytesLeft ledger, mul_twenty small, SizeT.mul_eq (by omega), sim.heap,
    Nat.shiftRight_eq_div_pow, roundUp_eq (by omega)]
  refine List.forall_mem_append.mpr ⟨List.forall_mem_append.mpr ⟨?_, ?_⟩, ?_⟩
  · by_cases some : 0 < A.rem.length
    · rw [if_pos some]
      exact fits_getFreeListOps some (short.le.trans (classSize_lt small))
    · rw [if_neg some]
      exact fun op member => nomatch member
  · exact fits_roundUpOps (by omega)
  · refine List.forall_mem_cons.mpr ⟨?_, List.forall_mem_singleton.mpr ?_⟩
    · change 2 * (classSize c * 20) < addressSpace
      omega
    · change 2 * (classSize c * 20) + (A.heapSize / 2 ^ 4 + 7) / 8 * 8 < addressSpace
      omega

end Sim

/-- The search after a refusal stays inside the blocks it looks at. -/
theorem Chains.fits_reclaimOps {s : Pool} {A : Arena} {live regions : List Interval} {i turns : Nat}
    (chains : Chains s.machine s.freeList A.lists) (ledger : Ledger A live regions) :
    ∀ op ∈ s.reclaimOps turns (classSize i), op.Fits := by
  induction turns generalizing i with
  | zero => exact List.forall_mem_nil _
  | succ turns ih =>
    rw [Pool.reclaimOps]
    by_cases large : classSize i ≤ maxBytes
    · have small : i < freeListSize := by
        simp only [classSize, freeListSize, maxBytes, align] at *
        omega
      have next : classSize i + align < addressSpace :=
        (Nat.add_le_add_right large align).trans_lt (by decide)
      rw [if_pos large, getFreeList_classSize small]
      refine List.forall_mem_append.mpr ⟨fits_getFreeListOps (classSize_pos i) large, ?_⟩
      by_cases none : A.lists i = []
      · rw [if_neg (not_not_intro ((chains.eq_zero_iff small).mpr none)), SizeT.add_eq next]
        exact List.forall_mem_cons.mpr ⟨next, ih⟩
      · rcases List.exists_cons_of_ne_nil none with ⟨p, rest, list⟩
        have bounds := ledger.node_bounds small (list ▸ List.mem_cons_self)
        rw [if_pos (mt (chains.eq_zero_iff small).mp none), chains.head_eq small list]
        exact List.forall_mem_singleton.mpr bounds.2
    · rw [if_neg large]
      exact List.forall_mem_nil _

namespace Sim

variable {s : Pool} {A : Arena} {live regions : List Interval} {c : Nat} {answer : Option Nat}

/-- A call that asks the system and is granted a region, or refused. -/
theorem fits_allocateChunkOps (sim : Sim s A) (ledger : Ledger A live regions)
    (small : c < freeListSize) (granted : Granted (A.regionsAfter c answer regions)) :
    ∀ op ∈ Pool.allocateChunkOps (classSize c) 20 3 [answer] s, op.Fits := by
  have ledger' := ledger.obtain small granted
  by_cases room : classSize c ≤ A.rem.length
  · exact sim.fits_ops_of_room ledger small room 2 [answer]
  · have short := Nat.lt_of_not_le room
    have room' := A.room_obtain c answer
    have wanted := sim.bytesToGet ledger small
    rcases sim.not_le_bytesLeft ledger small short with ⟨many, one⟩
    have chains := (sim.setAside ledger (short.le.trans (classSize_lt small))).1
    rw [Pool.allocateChunkOps, if_neg many, if_neg one]
    refine List.forall_mem_append.mpr ⟨sim.fits_entryOps small, ?_⟩
    refine List.forall_mem_append.mpr ⟨sim.fits_requestOps ledger small short, ?_⟩
    simp only [wanted]
    cases answer with
    | some base =>
      have obtained : A.obtain c (some base) = (A.setAside.grow c base, true) := if_neg room
      have regions' : A.regionsAfter c (some base) regions = ⟨base, A.wanted c⟩ :: regions :=
        if_neg room
      rw [obtained] at ledger' room'
      rw [regions'] at granted
      have grown := sim.grow ledger (c := c) chains granted
      have bound := (granted.bounds _ List.mem_cons_self).2.2
      have heap := granted.totalLength_lt
      rw [totalLength_cons, ← ledger.heap, Nat.add_comm, ← sim.heap, ← s.heapSize_setAside] at heap
      refine List.forall_mem_append.mpr ⟨?_, ?_⟩
      · exact List.forall_mem_cons.mpr ⟨heap, List.forall_mem_singleton.mpr bound⟩
      · exact grown.fits_ops_of_room ledger' small (room' rfl) 1 []
    | none =>
      have aside := ledger.setAside (short.le.trans (classSize_lt small))
      have search : Pool.reclaim
          { s.setAside with requests := (A.wanted c, none) :: s.setAside.requests }
          (freeListSize + 1) (classSize c) =
          some ((A.setAside.firstFree c).map (s.setAside.refused (A.wanted c)).reuse) :=
        Chains.reclaim_eq (s := s.setAside.refused (A.wanted c)) chains (by omega)
      refine List.forall_mem_append.mpr ⟨?_, ?_⟩
      · exact Chains.fits_reclaimOps (s := s.setAside.refused (A.wanted c)) chains aside
      · rw [search]
        cases found : A.setAside.firstFree c with
        | none => exact fun op member => nomatch member
        | some j =>
          have obtained : A.obtain c none = (A.setAside.reuse j, true) := by
            rw [Arena.obtain, if_neg room]
            simp only [found]
          rw [obtained] at ledger' room'
          have reused := sim.reuse ledger (A.wanted c) (short.le.trans (classSize_lt small)) chains
            found
          exact reused.fits_ops_of_room ledger' small (room' rfl) 1 []

/-- No computation of a refill wraps. -/
theorem fits_refillOps (sim : Sim s A) (ledger : Ledger A live regions) (small : c < freeListSize)
    (granted : Granted (A.regionsAfter c answer regions)) :
    ∀ op ∈ s.refillOps (classSize c) [answer], op.Fits := by
  have ledger' := ledger.obtain small granted
  have room := A.room_obtain c answer
  rcases sim.allocateChunk_eq ledger small granted with ⟨s', _, chunk⟩
  rw [Pool.refillOps, chunk 1]
  refine List.forall_mem_append.mpr ⟨sim.fits_allocateChunkOps ledger small granted, ?_⟩
  rcases case : A.obtain c answer with ⟨A', _ | _⟩
  · exact fun op member => nomatch member
  · rw [case] at ledger' room
    have carved := A'.carved_pos (room rfl)
    have bound : A'.rem.start + A'.carved c * classSize c < addressSpace :=
      (Nat.add_le_add_left (A'.carved_mul_le c) _).trans_lt ledger'.rem_lt
    simp only
    by_cases one : A'.carved c = 1
    · rw [if_pos one]
      exact fun op member => nomatch member
    · obtain ⟨k, more⟩ := Nat.exists_eq_add_of_le' (show 2 ≤ A'.carved c by omega)
      rw [more, Nat.add_mul] at bound
      have next : A'.rem.start + classSize c < addressSpace := by omega
      rw [if_neg one, SizeT.add_eq next]
      refine List.forall_mem_append.mpr ⟨?_, List.forall_mem_cons.mpr ⟨next, ?_⟩⟩
      · exact fits_getFreeListOps (classSize_pos c) (classSize_lt small)
      · apply fits_linkObjectsOps (k := k) (by omega)
        rw [Nat.add_mul]
        omega

end Sim

end PoolAlloc

end TorchTest
