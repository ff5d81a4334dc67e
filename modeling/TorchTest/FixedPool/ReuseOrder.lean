import TorchTest.FixedPool.Footprint

/-!
# Blocks come back in reverse order

Blocks that an object took back lie on its list as on a stack. `Stacked` says what the
world looks like while some of them are there: on the list in front of the old nodes,
and among the live blocks no more. Taking a block back pushes it (`Stacked.push`), a
request pops it (`Stacked.pop`), and the clients' writes cannot reach the links
(`Stacked.write`). When all have been asked for again, everything is as it was
(`reuse_order`).

With a wrapped chunk length the blocks overlap, and a client who writes in one of them
writes into a free one (`reuse_order_of_wrapped_chunk`).
-/

namespace TorchTest.FixedPool

variable {ι : Type}

/-- `k` requests for blocks of `size` bytes, whatever the system would answer, with
clients' writes before, between and after them. -/
inductive Reallocates (i : ι) (size : Nat) : Nat → List (Event ι) → Prop
  | nil : Reallocates i size 0 []
  | allocate {k : Nat} {es : List (Event ι)} (answer : Option Nat)
      (rest : Reallocates i size k es) :
      Reallocates i size (k + 1) (.allocate i size answer :: es)
  | write {k : Nat} {es : List (Event ι)} (p : Nat) (v : UInt8) (rest : Reallocates i size k es) :
      Reallocates i size k (.write p v :: es)

namespace World

variable [DecidableEq ι]

/-- The state after some valid run from empty pools. -/
def Reachable (cls : ι → PoolClass) (s : ι → Nat) (w : World ι) : Prop :=
  ∃ m es, Admissible (step cls) (Valid cls s) (init m) es ∧ after (step cls) (init m) es = w

/-- The list of the object `i`, from `free_store_` on, visits these nodes. -/
def FreeNodes (cls : ι → PoolClass) (w : World ι) (i : ι) (nodes : List Nat) : Prop :=
  Chain (fun p => w.machine.loadPtr (p + (cls i).link)) (w.freeStore i) nodes

variable {cls : ι → PoolClass} {s : ι → Nat} {w w₀ : World ι} {i : ι} {b : Block ι}
  {nodes : ι → List Nat} {stack : List (Block ι)}

/-- Since `w₀`, whose lists were `nodes`, the object `i` has taken back the blocks of
`stack`, the last one on top. -/
structure Stacked (cls : ι → PoolClass) (s : ι → Nat) (i : ι) (w₀ : World ι)
    (nodes : ι → List Nat) (w : World ι) (stack : List (Block ι)) : Prop where
  fixed : ∃ a, w.FixedInv cls s a
  lists : ∀ j, w.FreeNodes cls j ((if j = i then stack.map Block.ptr else []) ++ nodes j)
  live : (stack ++ w.live).Perm w₀.live
  owned : ∀ b ∈ stack, b.owner = i ∧ b.size = s i

theorem stacked_nil (fixed : ∃ a, w.FixedInv cls s a) (lists : ∀ j, w.FreeNodes cls j (nodes j)) :
    Stacked cls s i w nodes w [] where
  fixed := fixed
  lists j := by
    rw [List.map_nil, ite_self, List.nil_append]
    exact lists j
  live := .refl _
  owned _ member := nomatch member

/-- Live blocks of one object at one address are one block. -/
theorem FixedInv.block_inj {a : ι → FreeStore Slot} {c : Block ι} (fixed : w.FixedInv cls s a)
    (left : b ∈ w.live) (right : c ∈ w.live) (owner : b.owner = c.owner) (ptr : b.ptr = c.ptr) :
    b = c := by
  have size : b.size = c.size := by rw [fixed.sizes b left, fixed.sizes c right, owner]
  cases b
  cases c
  rw [Block.mk.injEq]
  exact ⟨owner, ptr, size⟩

namespace Stacked

/-- Taking a live block back puts it on top. -/
theorem push (stacked : Stacked cls s i w₀ nodes w stack) (serves : ∀ i, (cls i).Serves (s i))
    (live : b ∈ w.live) (owner : b.owner = i) :
    Stacked cls s i w₀ nodes (w.step cls (.deallocate i b.ptr)).1 (b :: stack) ∧
      w.live.Perm (b :: (w.step cls (.deallocate i b.ptr)).1.live) := by
  rcases stacked.fixed with ⟨a, fixed⟩
  have inv := fixed.inv
  have next := fixed.step serves (e := .deallocate i b.ptr)
    ⟨True.intro, True.intro, ⟨b, live, owner, rfl⟩, True.intro⟩
  rcases inv.exists_slot live owner with ⟨x, slot, start⟩
  have inv' := inv.pushed live owner slot start
  have perm : w.live.Perm (b :: (w.pushed cls i b.ptr).live) := by
    rcases pushed_split cls live owner with ⟨c, before, later, ownerC, ptrC, split, erased⟩
    have liveC : c ∈ w.live := split ▸ List.mem_append_right _ List.mem_cons_self
    have same : c = b := fixed.block_inj liveC live (ownerC.trans owner.symm) ptrC
    rw [split, erased, same]
    exact List.perm_middle
  rw [step_deallocate] at next ⊢
  refine ⟨{ fixed := next, lists := fun j => ?_, live := ?_, owned := ?_ }, perm⟩
  · have old := (inv.chain j).unique (stacked.lists j)
    have new := inv'.chain j
    rcases eq_or_ne j i with rfl | other
    · have top : slotAddr (w.pushed cls j b.ptr).chunks j x = b.ptr := start
      rw [if_pos rfl] at old ⊢
      rw [Function.update_self, FreeStore.release, List.map_cons, top] at new
      rw [List.map_cons, List.cons_append, ← old]
      exact new
    · rw [if_neg other] at old ⊢
      rw [Function.update_of_ne other] at new
      rw [← old]
      exact new
  · exact (List.perm_middle.symm.trans (perm.symm.append_left stack)).trans stacked.live
  · exact List.forall_mem_cons.mpr ⟨⟨owner, owner ▸ fixed.sizes b live⟩, stacked.owned⟩

/-- A request gets the block on top. -/
theorem pop (stacked : Stacked cls s i w₀ nodes w (b :: stack))
    (serves : ∀ i, (cls i).Serves (s i)) (answer : Option Nat) :
    Stacked cls s i w₀ nodes (w.step cls (.allocate i (s i) answer)).1 stack ∧
      (w.step cls (.allocate i (s i) answer)).2 = .returned b.ptr none := by
  rcases stacked.fixed with ⟨a, fixed⟩
  have list := stacked.lists i
  rw [if_pos rfl, List.map_cons, List.cons_append] at list
  rcases Chain.cons_iff.mp list with ⟨head, nonzero, _⟩
  have some : w.freeStore i ≠ 0 := head.trans_ne nonzero
  have system : w.SystemOk cls (.allocate i (s i) answer) := by
    cases answer with
    | none => exact True.intro
    | some base => exact fun none => absurd none some
  have granted : w.Granted (.allocate i (s i) answer) := by
    cases answer with
    | none => exact some
    | some base => exact True.intro
  have next := fixed.step serves ⟨system, granted, True.intro, rfl⟩
  rcases stacked.owned b List.mem_cons_self with ⟨owner, size⟩
  have block : b = ⟨i, w.freeStore i, s i⟩ := by
    cases b
    rw [Block.mk.injEq]
    exact ⟨owner, head.symm, size⟩
  rw [step_allocate_of_ne_zero some] at next ⊢
  refine ⟨{ fixed := next, lists := fun j => ?_, live := ?_, owned := ?_ }, by rw [head]⟩
  · rcases eq_or_ne j i with rfl | other
    · rw [if_pos rfl]
      unfold FreeNodes
      simp only [popped, Function.update_self]
      exact list.pop
    · have kept := stacked.lists j
      rw [if_neg other] at kept ⊢
      unfold FreeNodes
      simp only [popped, Function.update_of_ne other]
      exact kept
  · simp only [popped, ← block]
    exact List.perm_middle.trans stacked.live
  · exact fun c member => stacked.owned c (List.mem_cons_of_mem _ member)

/-- A client's write reaches neither the list nor the stack. -/
theorem write (stacked : Stacked cls s i w₀ nodes w stack) (serves : ∀ i, (cls i).Serves (s i))
    {p : Nat} {v : UInt8} (client : w.ClientOk (.write p v)) :
    Stacked cls s i w₀ nodes (w.step cls (.write p v)).1 stack := by
  rcases stacked.fixed with ⟨a, fixed⟩
  refine
    { fixed := fixed.step serves ⟨True.intro, True.intro, client, True.intro⟩,
      lists := fun j => ?_, live := stacked.live, owned := stacked.owned }
  rw [← (fixed.inv.chain j).unique (stacked.lists j)]
  exact (fixed.inv.written v client).chain j

/-- Distinct live blocks taken back pile up. -/
theorem push_all {bs : List (Block ι)} (stacked : Stacked cls s i w₀ nodes w stack)
    (serves : ∀ i, (cls i).Serves (s i)) (distinct : bs.Nodup)
    (live : ∀ b ∈ bs, b ∈ w.live ∧ b.owner = i) :
    Stacked cls s i w₀ nodes (after (step cls) w (bs.map fun b => .deallocate i b.ptr))
        (bs.reverse ++ stack) ∧
      outputs (step cls) w (bs.map fun b => .deallocate i b.ptr) = bs.map fun _ => .done := by
  induction bs generalizing w stack with
  | nil => exact ⟨stacked, rfl⟩
  | cons b bs ih =>
    rcases List.nodup_cons.mp distinct with ⟨new, distinct⟩
    rcases live b List.mem_cons_self with ⟨liveB, owner⟩
    rcases stacked.push serves liveB owner with ⟨pushed, perm⟩
    have left : ∀ c ∈ bs, c ∈ (w.step cls (.deallocate i b.ptr)).1.live ∧ c.owner = i := by
      intro c member
      rcases live c (List.mem_cons_of_mem _ member) with ⟨liveC, ownerC⟩
      rcases List.mem_cons.mp (perm.mem_iff.mp liveC) with rfl | liveC
      · exact absurd member new
      · exact ⟨liveC, ownerC⟩
    rcases ih pushed distinct left with ⟨all, results⟩
    rw [List.reverse_cons, List.append_assoc]
    exact ⟨all, congrArg (Result.done :: ·) results⟩

/-- As many requests as there are blocks get them from the top down. -/
theorem pop_all {es : List (Event ι)} (stacked : Stacked cls s i w₀ nodes w stack)
    (serves : ∀ i, (cls i).Serves (s i)) (requests : Reallocates i (s i) stack.length es)
    (clients : Admissible (step cls) (fun w e => w.ClientOk e) w es) :
    Stacked cls s i w₀ nodes (after (step cls) w es) [] ∧
      (outputs (step cls) w es).filter (· ≠ .done) = stack.map fun b => .returned b.ptr none := by
  generalize count : stack.length = k at requests
  induction requests generalizing w stack with
  | nil =>
    rw [List.length_eq_zero_iff.mp count] at stacked ⊢
    exact ⟨stacked, rfl⟩
  | @allocate k es answer rest ih =>
    rcases List.exists_cons_of_length_eq_add_one count with ⟨b, stack, rfl⟩
    rcases stacked.pop serves answer with ⟨popped, result⟩
    rcases ih popped clients.2 (Nat.succ.inj count) with ⟨all, results⟩
    rw [after_cons, outputs_cons, result, List.filter_cons_of_pos (by simp), results]
    exact ⟨all, rfl⟩
  | @write k es p v rest ih =>
    rcases ih (stacked.write serves clients.1) clients.2 count with ⟨all, results⟩
    rw [after_cons, outputs_cons, show (w.step cls (.write p v)).2 = .done from rfl,
      List.filter_cons_of_neg (by simp)]
    exact ⟨all, results⟩

end Stacked

theorem Reachable.fixed (reachable : w.Reachable cls s) (serves : ∀ i, (cls i).Serves (s i)) :
    ∃ a, w.FixedInv cls s a := by
  rcases reachable with ⟨m, es, run, rfl⟩
  exact run.invariant (I := fun w => ∃ a, w.FixedInv cls s a) ⟨_, fixedInv_init cls s m⟩
    fun w e ⟨a, fixed⟩ valid => fixed.step serves valid

end World

variable [DecidableEq ι]

open World in
/-- From any reachable state of pools used with one size each, whose chunk lengths do
not wrap: distinct live blocks of an object that are taken back and asked for again come
out in reverse order, without a request to the system and whatever the clients write in
the meantime, and leave `free_store_`, the nodes of the lists and the live blocks as
they were. -/
theorem reuse_order {cls : ι → PoolClass} {s : ι → Nat} (own : ∀ i, (cls i).stride (s i) = s i)
    (large : ∀ i, pointerSize ≤ s i) (nowrap : ∀ i, (cls i).chunk * s i < addressSpace)
    {w : World ι} (reachable : w.Reachable cls s) {i : ι} {bs : List (Block ι)}
    (distinct : bs.Nodup) (live : ∀ b ∈ bs, b ∈ w.live ∧ b.owner = i) {es : List (Event ι)}
    (requests : Reallocates i (s i) bs.length es)
    (clients : Admissible (step cls) (fun w e => w.ClientOk e)
      (after (step cls) w (bs.map fun b => .deallocate i b.ptr)) es) :
    (outputs (step cls) w ((bs.map fun b => .deallocate i b.ptr) ++ es)).filter (· ≠ .done) =
        bs.reverse.map (fun b => .returned b.ptr none) ∧
      (after (step cls) w ((bs.map fun b => .deallocate i b.ptr) ++ es)).freeStore = w.freeStore ∧
      (∀ j nodes, w.FreeNodes cls j nodes →
        (after (step cls) w ((bs.map fun b => .deallocate i b.ptr) ++ es)).FreeNodes cls j nodes) ∧
      (after (step cls) w ((bs.map fun b => .deallocate i b.ptr) ++ es)).live.Perm w.live := by
  have serves : ∀ i, (cls i).Serves (s i) := fun i =>
    PoolClass.serves_of_fixed (own i) (large i) (nowrap i)
  rcases reachable.fixed serves with ⟨a, fixed⟩
  have lists : ∀ j, w.FreeNodes cls j ((a j).free.map (slotAddr w.chunks j)) := fixed.inv.chain
  have start := stacked_nil (i := i) ⟨a, fixed⟩ lists
  rcases start.push_all serves distinct live with ⟨pushed, done⟩
  rw [List.append_nil] at pushed
  rcases pushed.pop_all serves (by rwa [List.length_reverse]) clients with ⟨popped, returned⟩
  have lists' : ∀ j, (after (step cls) (after (step cls) w (bs.map fun b => .deallocate i b.ptr))
      es).FreeNodes cls j ((a j).free.map (slotAddr w.chunks j)) := by
    intro j
    have list := popped.lists j
    rwa [List.map_nil, ite_self, List.nil_append] at list
  rw [after_append]
  refine ⟨?_, funext fun j => (lists' j).first_unique (lists j), fun j nodes old => ?_,
    popped.live⟩
  · have silent : (bs.map fun _ => Result.done).filter (· ≠ .done) = [] :=
      List.filter_eq_nil_iff.mpr fun r member => by
        rcases List.mem_map.mp member with ⟨_, _, rfl⟩
        simp
    rw [outputs_append, done, List.filter_append, silent, List.nil_append]
    exact returned
  · rw [old.unique (lists j)]
    exact lists' j

open World in
/-- Four blocks of a `MyAllocator` of four, as in the test, with the other
pool's client writing in between. -/
theorem reuse_order_mixed :
    let es : List (Event Bool) :=
      [.allocate false 40 (some 4096), .allocate true 8 (some 8192), .allocate false 40 none]
    let again : List (Event Bool) :=
      [.deallocate false 4096, .deallocate false 4136, .allocate false 40 none, .write 4136 1,
        .write 8192 255, .allocate false 40 none]
    let w := after (step mixedPools) (init Machine.zero) es
    (outputs (step mixedPools) w again).filter (· ≠ .done) =
        [.returned 4136 none, .returned 4096 none] ∧
      (after (step mixedPools) w again).freeStore = w.freeStore := by
  intro es again w
  have reachable : w.Reachable mixedPools mixedSize :=
    ⟨Machine.zero, es, by decide +kernel, rfl⟩
  have order := @reuse_order Bool _ mixedPools mixedSize (by decide) (by decide) (by decide) w
    reachable false [⟨false, 4096, 40⟩, ⟨false, 4136, 40⟩] (by decide) (by decide +kernel) _
    (.allocate none (.write 4136 1 (.write 8192 255 (.allocate none .nil)))) (by decide +kernel)
  exact ⟨order.1, order.2.1⟩

open World in
/-- With `CHUNK = 4` and blocks of `2 ^ 63` bytes the second slot of the second chunk lies
inside the second slot of the first one. A client who writes there changes the link of
a free block. -/
theorem reuse_order_of_wrapped_chunk :
    let cls := fun _ : Unit => PoolClass.testMyAllocator
    let s := fun _ : Unit => 2 ^ 63
    let es : List (Event Unit) :=
      [.allocate () (2 ^ 63) (some 4096), .allocate () (2 ^ 63) none,
        .allocate () (2 ^ 63) (some 8192)]
    let frees : List (Event Unit) := [.deallocate () 4096, .deallocate () (2 ^ 63 + 4096)]
    let again : List (Event Unit) :=
      [.allocate () (2 ^ 63) none, .write (2 ^ 63 + 8192) 1, .allocate () (2 ^ 63) none]
    let w := after (step cls) (init Machine.zero) es
    (∀ i, pointerSize ≤ s i) ∧ w.Reachable cls s ∧
      (∀ b ∈ ([⟨(), 4096, 2 ^ 63⟩, ⟨(), 2 ^ 63 + 4096, 2 ^ 63⟩] : List (Block Unit)), b ∈ w.live) ∧
      Reallocates () (2 ^ 63) 2 again ∧
      Admissible (step cls) (fun w e => w.ClientOk e) w (frees ++ again) ∧
      w.FreeNodes cls () [2 ^ 63 + 8192] ∧
      ¬ (after (step cls) w (frees ++ again)).FreeNodes cls () [2 ^ 63 + 8192] := by
  intro cls s es frees again w
  refine ⟨by decide, ⟨Machine.zero, es, by decide +kernel, rfl⟩, by decide +kernel,
    .allocate none (.write _ 1 (.allocate none .nil)), by decide +kernel, ?_, ?_⟩
  · exact Chain.cons_iff.mpr ⟨by decide +kernel, by decide, Chain.nil_iff.mpr (by decide +kernel)⟩
  · intro list
    have last := Chain.nil_iff.mp (Chain.cons_iff.mp list).2.2
    exact absurd last (by decide +kernel)

end TorchTest.FixedPool
