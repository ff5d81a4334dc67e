import Mathlib.Algebra.Order.Floor.Div
import Mathlib.Data.List.Nodup
import Mathlib.Data.List.Perm.Basic
import TorchTest.Library.Runs

/-!
# A last-in first-out store of slots that grows by chunks

What a fixed-size memory pool is for, without memory: slots of any type `σ`,
`grow k` being the slots of the `k`-th chunk. A request takes the first free
slot, and takes a new chunk first when none is free. A release puts the slot
in front of the free ones.

* `Sound` says that the live and the free slots together are exactly the slots
  of the chunks taken so far; every operation keeps it (`Sound.refill`,
  `Sound.take`, `Sound.release`);
* with distinct slots (`Distinct`) this makes each slot live or free and never
  both (`Sound.nodup`, `Sound.not_both`);
* with chunks of one length `C` the chunks taken are as few as the largest number
  of live slots so far allows (`Footprint`).

`chunkSlots C k` names the `C` slots of chunk `k` by their two numbers.
-/

namespace TorchTest

/-- Chunks taken, free slots with the next one to hand out first, live slots. -/
structure FreeStore (σ : Type*) where
  chunks : Nat
  free : List σ
  live : List σ

namespace FreeStore

/-- What a client asks of a store. -/
inductive Call (σ : Type*)
  | allocate
  | release (x : σ)
  deriving DecidableEq

variable {σ : Type*} (grow : Nat → List σ)

/-- The store before any call. -/
def empty : FreeStore σ := { chunks := 0, free := [], live := [] }

/-- Take a chunk if no slot is free. -/
def refill (s : FreeStore σ) : FreeStore σ :=
  match s.free with
  | [] => { s with chunks := s.chunks + 1, free := grow s.chunks }
  | _ :: _ => s

/-- Hand out the first free slot. -/
def take (s : FreeStore σ) : FreeStore σ × Option σ :=
  match s.free with
  | [] => (s, none)
  | x :: rest => ({ s with free := rest, live := x :: s.live }, some x)

/-- Put a slot back in front. -/
def release [DecidableEq σ] (s : FreeStore σ) (x : σ) : FreeStore σ :=
  { s with free := x :: s.free, live := s.live.erase x }

/-- One call, with the slot it hands out. -/
def call [DecidableEq σ] (s : FreeStore σ) : Call σ → FreeStore σ × Option σ
  | .allocate => take (s.refill grow)
  | .release x => (s.release x, none)

/-- All slots of the first `n` chunks. -/
def slots (n : Nat) : List σ := (List.range n).flatMap grow

/-- Live and free slots are the slots of the chunks taken, each once. -/
def Sound (s : FreeStore σ) : Prop := (s.live ++ s.free).Perm (slots grow s.chunks)

/-- No slot occurs twice among all chunks. -/
def Distinct : Prop := ∀ n, (slots grow n).Nodup

variable {grow} {s : FreeStore σ} {x : σ}

@[simp] theorem slots_zero : slots grow 0 = [] := rfl

theorem slots_succ (n : Nat) : slots grow (n + 1) = slots grow n ++ grow n := by
  simp [slots, List.range_succ]

theorem mem_slots {n : Nat} : x ∈ slots grow n ↔ ∃ k < n, x ∈ grow k := by
  simp [slots]

theorem refill_of_nil (none : s.free = []) :
    s.refill grow = { s with chunks := s.chunks + 1, free := grow s.chunks } := by
  simp [refill, none]

theorem refill_of_cons {rest : List σ} (some : s.free = x :: rest) : s.refill grow = s := by
  simp [refill, some]

theorem take_of_cons {rest : List σ} (some : s.free = x :: rest) :
    take s = ({ s with free := rest, live := x :: s.live }, Option.some x) := by
  simp [take, some]

@[simp] theorem live_refill : (s.refill grow).live = s.live := by
  cases free : s.free with
  | nil => rw [refill_of_nil free]
  | cons x rest => rw [refill_of_cons free]

/-- A slot just taken is added to the live ones. -/
theorem live_of_taken [DecidableEq σ] (taken : (s.call grow .allocate).2 = some x) :
    (s.call grow .allocate).1.live = x :: s.live := by
  cases free : (s.refill grow).free with
  | nil => simp [call, take, free] at taken
  | cons y rest =>
    rw [call, take_of_cons free] at taken ⊢
    rw [Option.some.inj taken, live_refill]

theorem mem_live_of_taken [DecidableEq σ] (taken : (s.call grow .allocate).2 = some x) :
    x ∈ (s.call grow .allocate).1.live :=
  live_of_taken taken ▸ List.mem_cons_self

theorem sound_empty : Sound grow (empty : FreeStore σ) := List.Perm.refl _

theorem Sound.refill (sound : Sound grow s) : Sound grow (s.refill grow) := by
  cases free : s.free with
  | nil =>
    rw [refill_of_nil free]
    unfold Sound at sound ⊢
    rw [free, List.append_nil] at sound
    rw [slots_succ]
    exact sound.append_right _
  | cons x rest => rwa [refill_of_cons free]

theorem Sound.take (sound : Sound grow s) : Sound grow s.take.1 := by
  cases free : s.free with
  | nil => simpa [FreeStore.take, free] using sound
  | cons x rest =>
    rw [take_of_cons free]
    unfold Sound at sound ⊢
    rw [free] at sound
    exact List.perm_middle.symm.trans sound

/-- The live slots are the released one and those left. -/
theorem perm_release [DecidableEq σ] (live : x ∈ s.live) :
    s.live.Perm (x :: (s.release x).live) :=
  List.perm_cons_erase live

theorem mem_of_mem_release [DecidableEq σ] {y : σ} (left : y ∈ (s.release x).live) :
    y ∈ s.live :=
  List.mem_of_mem_erase left

theorem mem_release_of_ne [DecidableEq σ] {y : σ} (live : y ∈ s.live) (other : y ≠ x) :
    y ∈ (s.release x).live :=
  (List.mem_erase_of_ne other).mpr live

theorem Sound.release [DecidableEq σ] (sound : Sound grow s) (live : x ∈ s.live) :
    Sound grow (s.release x) := by
  unfold Sound at sound ⊢
  exact (List.perm_middle.trans ((perm_release live).symm.append_right s.free)).trans sound

theorem Sound.nodup (sound : Sound grow s) (distinct : Distinct grow) :
    (s.live ++ s.free).Nodup :=
  sound.nodup_iff.mpr (distinct s.chunks)

theorem Sound.not_both (sound : Sound grow s) (distinct : Distinct grow) (live : x ∈ s.live) :
    x ∉ s.free :=
  fun free => (List.nodup_append.mp (sound.nodup distinct)).2.2 x live x free rfl

theorem Sound.mem_slots (sound : Sound grow s) (known : x ∈ s.live ∨ x ∈ s.free) :
    x ∈ slots grow s.chunks :=
  sound.mem_iff.mp (List.mem_append.mpr known)

/-- A store whose chunks are not empty hands out a slot for every request. -/
theorem exists_take (nonempty : ∀ k, grow k ≠ []) :
    ∃ x rest, (s.refill grow).free = x :: rest := by
  cases free : s.free with
  | nil =>
    rw [refill_of_nil free]
    exact List.exists_cons_of_ne_nil (nonempty _)
  | cons x rest => exact ⟨x, rest, by rw [refill_of_cons free, free]⟩

/-! ## Chunks taken -/

/-- With chunks of `C` slots, the chunks taken hold as many slots as were ever live,
`peak`, and one chunk less would not. -/
structure Footprint (C : Nat) (s : FreeStore σ) (peak : Nat) : Prop where
  live_le : s.live.length ≤ peak
  peak_le : peak ≤ s.chunks * C
  lt_add : s.chunks * C < peak + C

section

variable {C peak : Nat}

theorem length_slots (uniform : ∀ k, (grow k).length = C) (n : Nat) :
    (slots grow n).length = n * C := by
  induction n with
  | zero => rw [slots_zero, List.length_nil, Nat.zero_mul]
  | succ n ih => rw [slots_succ, List.length_append, ih, uniform, Nat.succ_mul]

theorem Sound.length (sound : Sound grow s) (uniform : ∀ k, (grow k).length = C) :
    s.live.length + s.free.length = s.chunks * C := by
  rw [← length_slots uniform, ← sound.length_eq, List.length_append]

theorem footprint_empty (positive : 0 < C) : (empty : FreeStore σ).Footprint C 0 where
  live_le := le_refl _
  peak_le := Nat.zero_le _
  lt_add := by
    rw [empty, Nat.zero_mul, Nat.zero_add]
    exact positive

/-- A request takes a chunk only when all slots are live, so that a new peak needs it. -/
theorem Footprint.allocate [DecidableEq σ] (holds : s.Footprint C peak) (sound : Sound grow s)
    (uniform : ∀ k, (grow k).length = C) (positive : 0 < C) :
    (s.call grow .allocate).1.Footprint C (max peak (s.call grow .allocate).1.live.length) := by
  have length := sound.length uniform
  rcases holds with ⟨live, below, above⟩
  cases free : s.free with
  | nil =>
    rcases List.exists_cons_of_length_pos ((uniform s.chunks).symm ▸ positive) with
      ⟨x, rest, first⟩
    rw [free, List.length_nil] at length
    rw [call, take_of_cons ((congrArg FreeStore.free (refill_of_nil free)).trans first),
      refill_of_nil free]
    constructor
    · exact le_max_right _ _
    · simp only [List.length_cons, Nat.succ_mul]
      omega
    · simp only [List.length_cons, Nat.succ_mul]
      omega
  | cons x rest =>
    rw [free, List.length_cons] at length
    rw [call, refill_of_cons free, take_of_cons free]
    constructor
    · exact le_max_right _ _
    · simp only [List.length_cons]
      omega
    · simp only [List.length_cons]
      omega

theorem Footprint.release [DecidableEq σ] (holds : s.Footprint C peak) (x : σ) :
    (s.release x).Footprint C (max peak (s.release x).live.length) := by
  have fewer : (s.release x).live.length ≤ s.live.length := List.erase_sublist.length_le
  have same := max_eq_left (fewer.trans holds.live_le)
  rw [same]
  exact ⟨fewer.trans holds.live_le, holds.peak_le, holds.lt_add⟩

theorem Footprint.call [DecidableEq σ] (holds : s.Footprint C peak) (sound : Sound grow s)
    (uniform : ∀ k, (grow k).length = C) (positive : 0 < C) (c : Call σ) :
    (s.call grow c).1.Footprint C (max peak (s.call grow c).1.live.length) := by
  cases c with
  | allocate => exact holds.allocate sound uniform positive
  | release x => exact holds.release x

/-- The chunks taken are the largest number of live slots, divided by `C` and rounded up. -/
theorem Footprint.chunks_eq (holds : s.Footprint C peak) (positive : 0 < C) :
    s.chunks = peak ⌈/⌉ C := by
  apply le_antisymm
  · rw [Nat.ceilDiv_eq_add_pred_div, Nat.le_div_iff_mul_le positive]
    have above := holds.lt_add
    omega
  · rw [ceilDiv_le_iff_le_mul positive]
    exact holds.peak_le.trans_eq (Nat.mul_comm _ _)

end

end FreeStore

/-! ## Numbered slots -/

/-- A slot by its chunk number and its number within the chunk. -/
abbrev Slot := Nat × Nat

/-- The slots of chunk `k` when every chunk has `C`. -/
def chunkSlots (C k : Nat) : List Slot := (List.range C).map (k, ·)

theorem mem_chunkSlots {C k : Nat} {x : Slot} : x ∈ chunkSlots C k ↔ x.1 = k ∧ x.2 < C := by
  obtain ⟨chunk, number⟩ := x
  simp only [chunkSlots, List.mem_map, List.mem_range, Prod.mk.injEq]
  constructor
  · intro ⟨j, bound, same, number⟩
    exact ⟨same.symm, number ▸ bound⟩
  · intro ⟨same, bound⟩
    exact ⟨number, bound, same.symm, rfl⟩

@[simp] theorem length_chunkSlots (C k : Nat) : (chunkSlots C k).length = C := by
  rw [chunkSlots, List.length_map, List.length_range]

theorem chunkSlots_ne_nil {C : Nat} (positive : 0 < C) (k : Nat) : chunkSlots C k ≠ [] :=
  List.ne_nil_of_mem (a := (k, 0)) (mem_chunkSlots.mpr ⟨rfl, positive⟩)

theorem mem_slots_chunkSlots {C n : Nat} {x : Slot} :
    x ∈ FreeStore.slots (chunkSlots C) n ↔ x.1 < n ∧ x.2 < C := by
  rw [FreeStore.mem_slots]
  constructor
  · intro ⟨k, bound, member⟩
    obtain ⟨rfl, number⟩ := mem_chunkSlots.mp member
    exact ⟨bound, number⟩
  · intro ⟨bound, number⟩
    exact ⟨x.1, bound, mem_chunkSlots.mpr ⟨rfl, number⟩⟩

theorem distinct_chunkSlots (C : Nat) : FreeStore.Distinct (chunkSlots C) := by
  intro n
  refine List.nodup_flatMap.mpr ⟨fun k _ => ?_, ?_⟩
  · exact List.nodup_range.map fun i j same => (Prod.mk.inj same).2
  · refine List.nodup_range.imp fun different x left right => different ?_
    rw [← (mem_chunkSlots.mp left).1, ← (mem_chunkSlots.mp right).1]

end TorchTest
