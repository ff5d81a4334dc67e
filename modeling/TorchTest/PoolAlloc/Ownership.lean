import TorchTest.PoolAlloc.ThreadMoves

/-!
# Where the blocks are

A block in use is with the clients or with exactly one thread: with one that gives it
back, up to the line that takes it out of use, or with one that got it and has not
returned yet (`Owned`). A step moves at most one block (`Owned.move`): a thread takes the
block that it carries out of use, gets a new one, takes one over from the clients, or
hands one over to them.
-/

namespace TorchTest.PoolAlloc.Threads

/-- The block that a thread at this line carries between a client and the pool. -/
def Pc.carries : Pc → Option Block
  | .entry c | .branch c | .system c | .lock c | .locked c => c.block
  | .heading T n chunk _ | .linking T n chunk _ _ _ => (Call.allocate T n).got (checkRet chunk)
  | .unlocking c r | .leaving c r => c.got r
  | _ => none

/-- With the clients, or with a thread. -/
inductive Place (τ : Type)
  | clients
  | thread (t : τ)
  deriving DecidableEq

namespace State

variable {τ : Type}

/-- Every block in use is in one place. -/
structure Owned (s : State τ) (place : Block → Option (Place τ)) : Prop where
  nodup : s.held.Nodup
  inUse : ∀ b, b ∈ s.inUse ↔ place b ≠ none
  held : ∀ b, b ∈ s.held ↔ place b = some .clients
  carried : ∀ t b, (s.pc t).carries = some b ↔ place b = some (.thread t)

namespace Owned

variable {s s' : State τ} {place : Block → Option (Place τ)} {b : Block} {t : τ} {pc : Pc}

/-- A step that moves no block. -/
theorem congr (owned : s.Owned place) (held : s'.held = s.held) (inUse : s'.inUse = s.inUse)
    (pcs : ∀ u, (s'.pc u).carries = (s.pc u).carries) : s'.Owned place where
  nodup := held ▸ owned.nodup
  inUse b := inUse ▸ owned.inUse b
  held b := held ▸ owned.held b
  carried u b := pcs u ▸ owned.carried u b

theorem init (m : Machine) : (State.init m : State τ).Owned fun _ => none where
  nodup := .nil
  inUse b := by simp [State.init]
  held b := by simp [State.init]
  carried t b := by simp [State.init, Pc.carries]

variable [DecidableEq τ]

/-- A thread keeps the block that it carries, if any. -/
theorem keep (owned : s.Owned place) (pcs : s'.pc = Function.update s.pc t pc)
    (carries : pc.carries = (s.pc t).carries) (held : s'.held = s.held)
    (inUse : s'.inUse = s.inUse) : s'.Owned place := by
  apply owned.congr held inUse
  intro u
  rw [pcs]
  rcases eq_or_ne u t with rfl | other
  · rw [Function.update_self, carries]
  · rw [Function.update_of_ne other]

/-- A step that moves the block `b` to or from the thread `t`. -/
theorem move (owned : s.Owned place) {x : Option (Place τ)}
    (pcs : s'.pc = Function.update s.pc t pc)
    (before : ∀ c, (s.pc t).carries = some c → c = b) (others : ∀ u, place b = some (.thread u) → u = t)
    (now : ∀ c, pc.carries = some c ↔ c = b ∧ x = some (.thread t))
    (only : ∀ u, x = some (.thread u) → u = t) (nodup : s'.held.Nodup)
    (inUse : ∀ c, c ∈ s'.inUse ↔ if c = b then x ≠ none else c ∈ s.inUse)
    (held : ∀ c, c ∈ s'.held ↔ if c = b then x = some .clients else c ∈ s.held) :
    s'.Owned (Function.update place b x) where
  nodup := nodup
  inUse c := by
    rw [inUse]
    rcases eq_or_ne c b with rfl | other
    · rw [if_pos rfl, Function.update_self]
    · rw [if_neg other, Function.update_of_ne other, owned.inUse]
  held c := by
    rw [held]
    rcases eq_or_ne c b with rfl | other
    · rw [if_pos rfl, Function.update_self]
    · rw [if_neg other, Function.update_of_ne other, owned.held]
  carried u c := by
    rw [pcs]
    rcases eq_or_ne u t with rfl | different
    · rw [Function.update_self, now]
      rcases eq_or_ne c b with rfl | other
      · rw [Function.update_self, and_iff_right rfl]
      · rw [Function.update_of_ne other, ← owned.carried]
        exact iff_of_false (fun both => other both.1) fun carries => other (before c carries)
    · rw [Function.update_of_ne different, owned.carried]
      rcases eq_or_ne c b with rfl | other
      · rw [Function.update_self]
        exact iff_of_false (fun there => different (others u there)) fun there =>
          different (only u there)
      · rw [Function.update_of_ne other]

/-- The thread takes the block that it carries out of use. -/
theorem lose (owned : s.Owned place) (nodup : s.inUse.Nodup) (carries : (s.pc t).carries = some b)
    (pcs : s'.pc = Function.update s.pc t pc) (rid : pc.carries = none) (held : s'.held = s.held)
    (inUse : s'.inUse = s.inUse.erase b) : s'.Owned (Function.update place b none) := by
  have there := (owned.carried t b).mp carries
  refine owned.move pcs (fun c also => Option.some.inj (also.symm.trans carries)) (fun u also => ?_)
    (by simp [rid]) (fun _ never => nomatch never) (held ▸ owned.nodup) (fun c => ?_) fun c => ?_
  · cases there.symm.trans also
    rfl
  · rw [inUse, nodup.mem_erase_iff]
    split_ifs with same
    · simp [same]
    · exact and_iff_right same
  · rw [held]
    split_ifs with same
    · rw [same, owned.held, there]
      simp
    · exact Iff.rfl

/-- The thread gets a new block. -/
theorem gain (owned : s.Owned place) (fresh : b ∉ s.inUse) (empty : (s.pc t).carries = none)
    (pcs : s'.pc = Function.update s.pc t pc) (carries : pc.carries = some b)
    (held : s'.held = s.held) (inUse : s'.inUse = b :: s.inUse) :
    s'.Owned (Function.update place b (some (.thread t))) := by
  have nowhere : place b = none := not_not.mp (mt (owned.inUse b).mpr fresh)
  refine owned.move pcs (by simp [empty]) (by simp [nowhere]) (fun c => ?_) (by simp)
    (held ▸ owned.nodup) (fun c => ?_) fun c => ?_
  · rw [carries, Option.some.injEq, eq_comm, and_iff_left rfl]
  · rw [inUse, List.mem_cons]
    split_ifs with same
    · simp [same]
    · exact or_iff_right same
  · rw [held]
    split_ifs with same
    · rw [same, owned.held, nowhere]
      simp
    · exact Iff.rfl

/-- A client hands a block over to the thread. -/
theorem take (owned : s.Owned place) (member : b ∈ s.held) (empty : (s.pc t).carries = none)
    (pcs : s'.pc = Function.update s.pc t pc) (carries : pc.carries = some b)
    (held : s'.held = s.held.erase b) (inUse : s'.inUse = s.inUse) :
    s'.Owned (Function.update place b (some (.thread t))) := by
  have there := (owned.held b).mp member
  refine owned.move pcs (by simp [empty]) (by simp [there]) (fun c => ?_) (by simp)
    (held ▸ owned.nodup.erase b) (fun c => ?_) fun c => ?_
  · rw [carries, Option.some.injEq, eq_comm, and_iff_left rfl]
  · rw [inUse]
    split_ifs with same
    · rw [same, owned.inUse, there]
      simp
    · exact Iff.rfl
  · rw [held, owned.nodup.mem_erase_iff]
    split_ifs with same
    · simp [same]
    · exact and_iff_right same

/-- The thread hands its block over to the clients. -/
theorem hand (owned : s.Owned place) (carries : (s.pc t).carries = some b)
    (pcs : s'.pc = Function.update s.pc t pc) (rid : pc.carries = none)
    (held : s'.held = b :: s.held) (inUse : s'.inUse = s.inUse) :
    s'.Owned (Function.update place b (some .clients)) := by
  have there := (owned.carried t b).mp carries
  have absent : b ∉ s.held := by
    rw [owned.held, there]
    simp
  refine owned.move pcs (fun c also => Option.some.inj (also.symm.trans carries)) (fun u also => ?_)
    (by simp [rid]) (by simp) (held ▸ List.nodup_cons.mpr ⟨absent, owned.nodup⟩) (fun c => ?_)
    fun c => ?_
  · cases there.symm.trans also
    rfl
  · rw [inUse]
    split_ifs with same
    · rw [same, owned.inUse, there]
      simp
    · exact Iff.rfl
  · rw [held, List.mem_cons]
    split_ifs with same
    · simp [same]
    · exact or_iff_right same

end Owned

end State

end TorchTest.PoolAlloc.Threads
