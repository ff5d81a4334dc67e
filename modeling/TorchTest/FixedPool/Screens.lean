import TorchTest.FixedPool.Refusal

/-!
# The two versions of `Screen` agree

`Screen` keeps its link beside the payload `i_`, in a slot of 16 bytes; the
second version keeps both in one union of 8 bytes. A `Screens` is one class with
the objects its client made, and a `Shelf` is what both are for: slots with the
values constructed in them, and no bytes.

`Held` ties the two. It says of every live object that the payload bytes of its
slot hold its value, and leaves the links to the invariant of the pool, which
speaks of free slots only; this is what lets the second version overlay the two.
Each version runs in lockstep with the shelf (`Screens.lockstep`), so the two
agree with each other (`versions_agree`).
-/

namespace TorchTest.FixedPool

open World

/-- `sizeof(Screen)`. -/
def sizeofScreen : Kind → Nat
  | .screenV1 => 16
  | _ => 8

/-- `Screen(int x) : i_(x)`; the payload is at offset 0 in both versions. -/
def Screen.construct (p : Nat) (x : BitVec 32) (m : Machine) : Machine :=
  { m with mem := m.mem.store p 4 x.toNat }

/-- `Screen::get`. -/
def Screen.get (p : Nat) (m : Machine) : BitVec 32 := BitVec.ofNat 32 (m.mem.load p 4)

theorem Screen.get_construct (p : Nat) (x : BitVec 32) (m : Machine) :
    Screen.get p (Screen.construct p x m) = x := by
  simp only [Screen.get, Screen.construct, Mem.load_store_same]
  have width : (256 : Nat) ^ 4 = 2 ^ 32 := by decide
  rw [width, Nat.mod_eq_of_lt x.isLt, BitVec.ofNat_toNat, BitVec.setWidth_eq]

/-- A payload is untouched by the construction of another object. -/
theorem Screen.get_construct_apart {p q : Nat} (x : BitVec 32) (m : Machine)
    (apart : p + 4 ≤ q ∨ q + 4 ≤ p) :
    Screen.get p (Screen.construct q x m) = Screen.get p m :=
  congrArg (BitVec.ofNat 32) (m.mem.load_store_apart apart)

/-- A payload is untouched by what happens elsewhere. -/
theorem Screen.get_congr {p : Nat} {m m' : Machine} (agree : Machine.AgreeOn ⟨p, 4⟩ m m') :
    Screen.get p m' = Screen.get p m := by
  unfold Screen.get
  rw [Mem.load_congr fun x lower upper => agree x ⟨lower, upper⟩]

/-- What a client of the class does; `k` is the number of an object in the order
of construction. -/
inductive Cmd
  | new (x : BitVec 32)
  | get (k : Nat)
  | delete (k : Nat)
  deriving DecidableEq

/-- What the client sees of a command, the pointer by its slot. -/
inductive Seen
  | created (requested : Bool) (slot : Option Slot)
  | threw
  | value (x : BitVec 32)
  | deleted
  | noObject
  deriving DecidableEq, Repr

/-- The class, and where the objects lie that its client made and did not delete. -/
structure Screens where
  world : World Unit
  count : Nat
  objects : Nat → Option Nat

namespace Screens

/-- No object yet, over any memory. -/
def init (m : Machine) : Screens := { world := World.init m, count := 0, objects := fun _ => none }

/-- One command, with the answer of the system should it ask for a chunk. -/
def step (K : PoolClass) (σ : Screens) : Cmd × Option Nat → Screens × Seen
  | (.new x, answer) =>
      match σ.world.step (fun _ => K) (.allocate () (sizeofScreen K.kind) answer) with
      | (w, .returned p request) =>
          ({ world := { w with machine := Screen.construct p x w.machine }
             count := σ.count + 1
             objects := Function.update σ.objects σ.count (some p) },
            .created request.isSome (slotOf K.chunk w.chunks () p))
      | (w, _) => ({ σ with world := w, count := σ.count + 1 }, .threw)
  | (.get k, _) =>
      match σ.objects k with
      | some p => (σ, .value (Screen.get p σ.world.machine))
      | none => (σ, .noObject)
  | (.delete k, _) =>
      match σ.objects k with
      | some p =>
          ({ σ with
              world := (σ.world.step (fun _ => K) (.deallocate () p)).1
              objects := Function.update σ.objects k none }, .deleted)
      | none => (σ, .noObject)

/-- The system grants fresh chunks, and commands are given on live objects. -/
def Valid (K : PoolClass) (σ : Screens) : Cmd × Option Nat → Prop
  | (.new _, answer) =>
      σ.world.SystemOk (fun _ => K) (.allocate () (sizeofScreen K.kind) answer)
  | (.get k, _) | (.delete k, _) => σ.objects k ≠ none

instance (K : PoolClass) (σ : Screens) : ∀ e, Decidable (σ.Valid K e)
  | (.new _, answer) =>
      inferInstanceAs (Decidable (σ.world.SystemOk (fun _ => K)
        (.allocate () (sizeofScreen K.kind) answer)))
  | (.get k, _) => inferInstanceAs (Decidable (σ.objects k ≠ none))
  | (.delete k, _) => inferInstanceAs (Decidable (σ.objects k ≠ none))

end Screens

/-! ## The shelf -/

/-- The slots of a class without memory, and the live objects with their values. -/
structure Shelf where
  store : FreeStore Slot
  count : Nat
  objects : Nat → Option (Slot × BitVec 32)

namespace Shelf

def init : Shelf := { store := FreeStore.empty, count := 0, objects := fun _ => none }

/-- One command; of the system's answer only its being a refusal matters. -/
def step (C : Nat) (α : Shelf) : Cmd × Bool → Shelf × Seen
  | (.new x, granted) =>
      if α.store.free = [] ∧ granted = false then ({ α with count := α.count + 1 }, .threw)
      else
        let (store, slot) := α.store.call (chunkSlots C) .allocate
        ({ store, count := α.count + 1,
           objects := Function.update α.objects α.count (slot.map (·, x)) },
          .created α.store.free.isEmpty slot)
  | (.get k, _) =>
      match α.objects k with
      | some o => (α, .value o.2)
      | none => (α, .noObject)
  | (.delete k, _) =>
      match α.objects k with
      | some o =>
          ({ α with store := α.store.release o.1, objects := Function.update α.objects k none },
            .deleted)
      | none => (α, .noObject)

end Shelf

/-- What the shelf sees of a command and its answer. -/
def asked (e : Cmd × Option Nat) : Cmd × Bool := (e.1, e.2.isSome)

/-- The class in memory is what the shelf describes: the pool keeps its
invariant, the objects lie in their live slots, each holding its value, and no
two in one slot. -/
structure Held (K : PoolClass) (σ : Screens) (α : Shelf) : Prop where
  fixed : σ.world.FixedInv (fun _ => K) (fun _ => sizeofScreen K.kind) fun _ => α.store
  count : σ.count = α.count
  objects : ∀ k, σ.objects k = (α.objects k).map fun o => slotAddr σ.world.chunks () o.1
  known : ∀ k o, α.objects k = some o → k < α.count ∧ o.1 ∈ α.store.live
  values : ∀ k o, α.objects k = some o →
    Screen.get (slotAddr σ.world.chunks () o.1) σ.world.machine = o.2
  distinct : ∀ j k o o', α.objects j = some o → α.objects k = some o' → o.1 = o'.1 → j = k

/-! ## Commands keep the two together -/

theorem PoolClass.serves_screen {K : PoolClass} (screen : K.kind = .screenV1 ∨ K.kind = .screenV2) :
    K.Serves (sizeofScreen K.kind) := by
  rcases K with ⟨kind, C, positive, small⟩
  rcases screen with rfl | rfl
  · exact ⟨rfl, le_refl 16, by change C * 16 < 2 ^ 64; omega⟩
  · exact ⟨rfl, le_refl 8, by change C * 8 < 2 ^ 64; omega⟩

theorem four_le_sizeofScreen (kind : Kind) : 4 ≤ sizeofScreen kind := by
  cases kind <;> decide

/-- A call leaves the payload of every live slot alone that it does not take back. -/
theorem World.FixedInv.get_step {K : PoolClass} {w : World Unit} {a : Unit → FreeStore Slot}
    {e : Event Unit} {x : Slot}
    (fixed : w.FixedInv (fun _ => K) (fun _ => sizeofScreen K.kind) a)
    (allowed : w.Allowed (fun _ => K) e) (call : e.IsCall) (slot : x ∈ (a ()).live)
    (kept : e ≠ .deallocate () (slotAddr w.chunks () x)) :
    Screen.get (slotAddr w.chunks () x) (w.step (fun _ => K) e).1.machine =
      Screen.get (slotAddr w.chunks () x) w.machine := by
  rcases fixed.exists_block slot with ⟨b, live, owner, start, size⟩
  rw [← start] at kept ⊢
  have agree := fixed.inv.step_frame allowed call live kept
  have small := four_le_sizeofScreen K.kind
  exact Screen.get_congr (agree.mono ⟨le_refl _, by
    simp only [Interval.stop, Block.span, size]
    omega⟩)

/-- A constructor writes in its own block only. -/
theorem World.FixedInv.construct {K : PoolClass} {w : World Unit} {a : Unit → FreeStore Slot}
    (fixed : w.FixedInv (fun _ => K) (fun _ => sizeofScreen K.kind) a) {p : Nat}
    (block : ⟨(), p, sizeofScreen K.kind⟩ ∈ w.live) (x : BitVec 32) :
    ({ w with machine := Screen.construct p x w.machine } : World Unit).FixedInv (fun _ => K)
      (fun _ => sizeofScreen K.kind) a := by
  have room := four_le_sizeofScreen K.kind
  refine ⟨fixed.inv.rewritten block fun q outside => Mem.store_outside _ ?_, fixed.strides,
    fixed.sizes⟩
  simp only [Interval.mem_def, Block.span] at outside
  omega

/-- A constructor leaves the payload of every other live slot alone. -/
theorem World.FixedInv.get_construct {K : PoolClass} {w : World Unit} {a : Unit → FreeStore Slot}
    {y z : Slot} (fixed : w.FixedInv (fun _ => K) (fun _ => sizeofScreen K.kind) a)
    (slot : z ∈ (a ()).live) (new : y ∈ (a ()).live) (other : z ≠ y) (x : BitVec 32) :
    Screen.get (slotAddr w.chunks () z) (Screen.construct (slotAddr w.chunks () y) x w.machine) =
      Screen.get (slotAddr w.chunks () z) w.machine := by
  have room := four_le_sizeofScreen K.kind
  have slots : ((), z) ≠ ((), y) := fun same => other (Prod.mk.inj same).2
  have apart := fixed.inv.separate (Or.inl slot) (Or.inl new) slots
  rw [fixed.slotSpan_eq (Or.inl slot), fixed.slotSpan_eq (Or.inl new)] at apart
  simp only [Interval.Apart, Interval.stop] at apart
  exact Screen.get_construct_apart x _ (by omega)

/-- One object has one store. -/
theorem update_unit (s s' : FreeStore Slot) :
    Function.update (fun _ : Unit => s) () s' = fun _ => s' := by
  funext
  exact Function.update_self ..

namespace Held

variable {K : PoolClass} {σ : Screens} {α : Shelf} {answer : Option Nat}

theorem init (K : PoolClass) (m : Machine) : Held K (Screens.init m) Shelf.init where
  fixed := fixedInv_init _ _ m
  count := rfl
  objects _ := rfl
  known _ _ some := nomatch some
  values _ _ some := nomatch some
  distinct _ _ _ _ some := nomatch some

/-- Both sides know the same objects. -/
theorem exists_object (held : Held K σ α) {k : Nat} (live : σ.objects k ≠ none) :
    ∃ o, α.objects k = some o ∧ σ.objects k = some (slotAddr σ.world.chunks () o.1) := by
  have same := held.objects k
  cases object : α.objects k with
  | none =>
    rw [object] at same
    exact absurd same live
  | some o =>
    rw [object] at same
    exact ⟨o, rfl, same⟩

/-- A refused `new` throws on both sides. -/
theorem new_refused (held : Held K σ α) (screen : K.kind = .screenV1 ∨ K.kind = .screenV2)
    (x : BitVec 32) (none : σ.world.freeStore () = 0) :
    Held K (σ.step K (.new x, .none)).1 (α.step K.chunk (.new x, false)).1 ∧
      (σ.step K (.new x, .none)).2 = (α.step K.chunk (.new x, false)).2 := by
  have thrown : K.kind ≠ .allocator := by
    rcases screen with kind | kind
    · simp [kind]
    · simp [kind]
  have refused : σ.world.step (fun _ => K) (.allocate () (sizeofScreen K.kind) .none) = _ :=
    step_refused _ none thrown
  have empty : α.store.free = [] := held.fixed.inv.free_eq_nil_iff.mpr none
  simp only [Screens.step, Shelf.step, refused, empty, and_self, if_true]
  exact ⟨⟨held.fixed, congrArg (· + 1) held.count, held.objects,
    fun k o some => ⟨Nat.lt_succ_of_lt (held.known k o some).1, (held.known k o some).2⟩,
    held.values, held.distinct⟩, True.intro⟩

/-- What a request that is served does to the pool: it takes a slot of the
store, adds its block, and moves no live slot nor changes a payload. -/
theorem served (held : Held K σ α) (screen : K.kind = .screenV1 ∨ K.kind = .screenV2)
    (system : σ.world.SystemOk (fun _ => K) (.allocate () (sizeofScreen K.kind) answer))
    (granted : σ.world.Granted (.allocate () (sizeofScreen K.kind) answer)) :
    ∃ w y store request,
      σ.world.step (fun _ => K) (.allocate () (sizeofScreen K.kind) answer) =
          (w, .returned (slotAddr w.chunks () y) request) ∧
        request.isSome = α.store.free.isEmpty ∧
        α.store.call (chunkSlots K.chunk) .allocate = (store, some y) ∧
        store.live = y :: α.store.live ∧
        w.FixedInv (fun _ => K) (fun _ => sizeofScreen K.kind) (fun _ => store) ∧
        ⟨(), slotAddr w.chunks () y, sizeofScreen K.kind⟩ ∈ w.live ∧
        ∀ z ∈ α.store.live, slotAddr w.chunks () z = slotAddr σ.world.chunks () z ∧
          Screen.get (slotAddr w.chunks () z) w.machine =
            Screen.get (slotAddr σ.world.chunks () z) σ.world.machine := by
  have serves : ∀ _ : Unit, K.Serves (sizeofScreen K.kind) := fun _ => PoolClass.serves_screen screen
  have valid : σ.world.Valid (fun _ => K) (fun _ => sizeofScreen K.kind)
      (.allocate () (sizeofScreen K.kind) answer) := ⟨system, granted, True.intro, rfl⟩
  have allowed := allowed_of_valid held.fixed serves valid
  rcases held.fixed.inv.step_allocate allowed with ⟨y, inv, taken, result⟩
  rcases held.fixed.step serves valid with ⟨_, fixed⟩
  rw [update_unit] at inv
  have nonzero := (inv.slotAddr_pos (i := ()) (Or.inl (FreeStore.mem_live_of_taken taken))).ne'
  refine ⟨_, y, _, _, Prod.ext rfl result, ?_, Prod.ext rfl taken, FreeStore.live_of_taken taken,
    ⟨inv, fixed.strides, fixed.sizes⟩, ?_, fun z known => ?_⟩
  · cases α.store.free <;> rfl
  · rw [live_step_returned result nonzero]
    exact List.mem_cons_self
  · have moved := held.fixed.inv.slotAddr_step allowed (i := ()) (Or.inl known)
    exact ⟨moved, by rw [moved, held.fixed.get_step allowed True.intro known (by simp)]⟩

/-- A served `new` constructs an object with its value in a free slot. -/
theorem new_served (held : Held K σ α) (screen : K.kind = .screenV1 ∨ K.kind = .screenV2)
    (x : BitVec 32)
    (system : σ.world.SystemOk (fun _ => K) (.allocate () (sizeofScreen K.kind) answer))
    (granted : σ.world.Granted (.allocate () (sizeofScreen K.kind) answer)) :
    Held K (σ.step K (.new x, answer)).1 (α.step K.chunk (.new x, answer.isSome)).1 ∧
      (σ.step K (.new x, answer)).2 = (α.step K.chunk (.new x, answer.isSome)).2 := by
  obtain ⟨w, y, store, request, stepped, requested, called, lives, fixed, block, kept⟩ :=
    held.served screen system granted
  have notRefused : ¬ (α.store.free = [] ∧ answer.isSome = false) := by
    rintro ⟨empty, refused⟩
    cases answer with
    | none => exact granted (held.fixed.inv.free_eq_nil_iff.mp empty)
    | some base => cases refused
  have live : y ∈ store.live := lives ▸ List.mem_cons_self
  have found := fixed.inv.slotOf_eq (i := ()) (Or.inl live)
  have nodup := (List.nodup_append.mp
    ((fixed.inv.sound ()).nodup (distinct_chunkSlots K.chunk))).1
  rw [lives, List.nodup_cons] at nodup
  have value : ∀ z ∈ α.store.live,
      Screen.get (slotAddr w.chunks () z) (Screen.construct (slotAddr w.chunks () y) x w.machine) =
        Screen.get (slotAddr σ.world.chunks () z) σ.world.machine := by
    intro z known
    have old : z ∈ store.live := lives ▸ List.mem_cons_of_mem _ known
    have other : z ≠ y := fun same => nodup.1 (same ▸ known)
    exact (fixed.get_construct old live other x).trans (kept z known).2
  simp only [Screens.step, Shelf.step, stepped, if_neg notRefused, called, requested, found,
    Option.map_some, and_true]
  -- an object is the new one or an old one
  have cases : ∀ k o, Function.update α.objects α.count (some (y, x)) k = some o →
      (k = α.count ∧ o = (y, x)) ∨ (k ≠ α.count ∧ α.objects k = some o) := by
    intro k o object
    rcases eq_or_ne k α.count with same | other
    · rw [same, Function.update_self] at object
      exact Or.inl ⟨same, (Option.some.inj object).symm⟩
    · rw [Function.update_of_ne other] at object
      exact Or.inr ⟨other, object⟩
  refine
    { fixed := fixed.construct block x, count := congrArg (· + 1) held.count, objects := ?_, known := ?_,
      values := ?_, distinct := ?_ }
  · intro k
    rw [held.count]
    rcases eq_or_ne k α.count with rfl | other
    · simp only [Function.update_self, Option.map_some]
    · simp only [Function.update_of_ne other]
      rw [held.objects k]
      cases object : α.objects k with
      | none => rfl
      | some o => simp only [Option.map_some, (kept o.1 (held.known k o object).2).1]
  · intro k o object
    rcases cases k o object with ⟨rfl, rfl⟩ | ⟨_, old⟩
    · exact ⟨Nat.lt_succ_self _, live⟩
    · rcases held.known k o old with ⟨number, slot⟩
      exact ⟨Nat.lt_succ_of_lt number, lives ▸ List.mem_cons_of_mem _ slot⟩
  · intro k o object
    rcases cases k o object with ⟨rfl, rfl⟩ | ⟨_, old⟩
    · exact Screen.get_construct ..
    · exact (value o.1 (held.known k o old).2).trans (held.values k o old)
  · intro j k o o' left right same
    rcases cases j o left with ⟨rfl, rfl⟩ | ⟨_, oldJ⟩
    · rcases cases k o' right with ⟨rfl, _⟩ | ⟨_, oldK⟩
      · rfl
      · have slot : y = o'.1 := same
        exact absurd (slot ▸ (held.known k o' oldK).2) nodup.1
    · rcases cases k o' right with ⟨rfl, rfl⟩ | ⟨_, oldK⟩
      · have slot : o.1 = y := same
        exact absurd (slot ▸ (held.known j o oldJ).2) nodup.1
      · exact held.distinct j k o o' oldJ oldK same

/-- `get` reads the value of the object. -/
theorem get (held : Held K σ α) {k : Nat} (live : σ.objects k ≠ none) :
    Held K (σ.step K (.get k, answer)).1 (α.step K.chunk (.get k, answer.isSome)).1 ∧
      (σ.step K (.get k, answer)).2 = (α.step K.chunk (.get k, answer.isSome)).2 := by
  rcases held.exists_object live with ⟨o, object, pointer⟩
  simp only [Screens.step, Shelf.step, object, pointer, held.values k o object, and_true]
  exact held

/-- `delete` gives the slot of the object back and keeps the others. -/
theorem delete (held : Held K σ α) (screen : K.kind = .screenV1 ∨ K.kind = .screenV2) {k : Nat}
    (live : σ.objects k ≠ none) :
    Held K (σ.step K (.delete k, answer)).1 (α.step K.chunk (.delete k, answer.isSome)).1 ∧
      (σ.step K (.delete k, answer)).2 = (α.step K.chunk (.delete k, answer.isSome)).2 := by
  rcases held.exists_object live with ⟨o, object, pointer⟩
  rcases held.known k o object with ⟨number, slot⟩
  rcases held.fixed.exists_block (i := ()) slot with ⟨b, member, owner, start, size⟩
  have serves : ∀ _ : Unit, K.Serves (sizeofScreen K.kind) := fun _ => PoolClass.serves_screen screen
  have valid : σ.world.Valid (fun _ => K) (fun _ => sizeofScreen K.kind)
      (.deallocate () (slotAddr σ.world.chunks () o.1)) :=
    ⟨True.intro, True.intro, ⟨b, member, owner, start⟩, True.intro⟩
  have allowed := allowed_of_valid held.fixed serves valid
  rcases held.fixed.step serves valid with ⟨_, fixed⟩
  have inv : (σ.world.step (fun _ => K) (.deallocate () (slotAddr σ.world.chunks () o.1))).1.Inv
      (fun _ => K) fun _ => α.store.release o.1 := by
    have pushed := held.fixed.inv.pushed member owner slot start.symm
    rw [update_unit, start] at pushed
    rwa [step_deallocate]
  -- the other objects have other slots
  have others : ∀ j o', Function.update α.objects k none j = some o' →
      j ≠ k ∧ α.objects j = some o' ∧ o'.1 ≠ o.1 := by
    intro j o' left
    rcases eq_or_ne j k with rfl | other
    · rw [Function.update_self] at left
      cases left
    · rw [Function.update_of_ne other] at left
      exact ⟨other, left, fun same => other (held.distinct j k o' o left object same)⟩
  simp only [Screens.step, Shelf.step, object, pointer, and_true]
  refine
    { fixed := ⟨inv, fixed.strides, fixed.sizes⟩, count := held.count, objects := ?_, known := ?_,
      values := ?_, distinct := ?_ }
  · intro j
    rcases eq_or_ne j k with rfl | other
    · simp only [Function.update_self, Option.map_none]
    · simp only [Function.update_of_ne other]
      exact held.objects j
  · intro j o' left
    rcases others j o' left with ⟨_, old, slots⟩
    rcases held.known j o' old with ⟨numberJ, slotJ⟩
    exact ⟨numberJ, FreeStore.mem_release_of_ne slotJ slots⟩
  · intro j o' left
    rcases others j o' left with ⟨_, old, slots⟩
    have slotJ := (held.known j o' old).2
    have kept := held.fixed.get_step allowed True.intro slotJ fun same =>
      slots (held.fixed.inv.slot_inj (i := ()) (Or.inl slotJ) (Or.inl slot)
        (Event.deallocate.inj same).2.symm)
    exact kept.trans (held.values j o' old)
  · intro i j o₁ o₂ left right same
    exact held.distinct i j o₁ o₂ (others i o₁ left).2.1 (others j o₂ right).2.1 same

/-- One valid command, on the class and on the shelf. -/
theorem step (held : Held K σ α) (screen : K.kind = .screenV1 ∨ K.kind = .screenV2)
    {e : Cmd × Option Nat} (valid : σ.Valid K e) :
    Held K (σ.step K e).1 (α.step K.chunk (asked e)).1 ∧
      (σ.step K e).2 = (α.step K.chunk (asked e)).2 := by
  rcases e with ⟨cmd, answer⟩
  cases cmd with
  | new x =>
    by_cases granted : σ.world.Granted (.allocate () (sizeofScreen K.kind) answer)
    · exact held.new_served screen x valid granted
    · cases answer with
      | none => exact held.new_refused screen x (not_not.mp granted)
      | some base => exact absurd True.intro granted
  | get k => exact held.get valid
  | delete k => exact held.delete screen valid

end Held

/-- The class runs in lockstep with its shelf. -/
theorem Screens.lockstep {K : PoolClass} (screen : K.kind = .screenV1 ∨ K.kind = .screenV2)
    {m : Machine} {es : List (Cmd × Option Nat)}
    (run : Admissible (Screens.step K) (Screens.Valid K) (Screens.init m) es) :
    Held K (after (Screens.step K) (Screens.init m) es)
        (after (Shelf.step K.chunk) Shelf.init (es.map asked)) ∧
      outputs (Screens.step K) (Screens.init m) es =
        outputs (Shelf.step K.chunk) Shelf.init (es.map asked) := by
  rw [after_map, outputs_map]
  exact run.lockstep (Held.init K m) fun σ α e held valid => held.step screen valid

/-! ## What the client sees -/

/-- The values that the objects were constructed with, in order of construction. -/
def constructed (cmds : List Cmd) : List (BitVec 32) :=
  cmds.filterMap fun
    | .new x => some x
    | _ => none

namespace Shelf

variable {C : Nat}

/-- A command adds at most the object it constructs. -/
theorem objects_step (α : Shelf) (cmd : Cmd) (granted : Bool) :
    (α.step C (cmd, granted)).1.count = α.count + (constructed [cmd]).length ∧
      ∀ k o, (α.step C (cmd, granted)).1.objects k = some o →
        α.objects k = some o ∨ (k = α.count ∧ constructed [cmd] = [o.2]) := by
  cases cmd with
  | new x =>
    by_cases refused : α.store.free = [] ∧ granted = false
    · simp only [step, if_pos refused]
      exact ⟨rfl, fun k o object => Or.inl object⟩
    · simp only [step, if_neg refused]
      refine ⟨rfl, fun k o object => ?_⟩
      rcases eq_or_ne k α.count with rfl | other
      · rw [Function.update_self] at object
        rcases Option.map_eq_some_iff.mp object with ⟨y, _, rfl⟩
        exact Or.inr ⟨rfl, rfl⟩
      · rw [Function.update_of_ne other] at object
        exact Or.inl object
  | get k =>
    have same : (α.step C (.get k, granted)).1 = α := by
      cases object : α.objects k <;> simp [step, object]
    rw [same]
    exact ⟨rfl, fun j o object => Or.inl object⟩
  | delete k =>
    cases object : α.objects k with
    | none =>
      simp only [step, object]
      exact ⟨rfl, fun j o other => Or.inl other⟩
    | some p =>
      simp only [step, object]
      refine ⟨rfl, fun j o left => ?_⟩
      rcases eq_or_ne j k with rfl | other
      · rw [Function.update_self] at left
        cases left
      · rw [Function.update_of_ne other] at left
        exact Or.inl left

/-- An object on the shelf has the value it was constructed with. -/
theorem objects_constructed (es : List (Cmd × Bool)) :
    (after (step C) init es).count = (constructed (es.map Prod.fst)).length ∧
      ∀ k o, (after (step C) init es).objects k = some o →
        (constructed (es.map Prod.fst))[k]? = some o.2 := by
  induction es using List.reverseRecOn with
  | nil => exact ⟨rfl, fun k o object => nomatch object⟩
  | append_singleton es e ih =>
    rcases ih with ⟨count, values⟩
    rcases objects_step (C := C) (after (step C) init es) e.1 e.2 with ⟨counted, added⟩
    have append : constructed ((es ++ [e]).map Prod.fst) =
        constructed (es.map Prod.fst) ++ constructed [e.1] := by
      rw [List.map_append, constructed, List.filterMap_append]
      rfl
    rw [after_append, append, List.length_append, ← count]
    refine ⟨counted, fun k o object => ?_⟩
    rcases added k o object with old | ⟨rfl, new⟩
    · have known := values k o old
      rw [List.getElem?_append_left (List.getElem?_eq_some_iff.mp known).1, known]
    · rw [count, new, List.getElem?_concat_length]

/-- Every object constructed has a slot. -/
theorem created_slot (positive : 0 < C) (α : Shelf) (e : Cmd × Bool) (requested : Bool) :
    (α.step C e).2 ≠ .created requested none := by
  rcases e with ⟨cmd, granted⟩
  cases cmd with
  | new x =>
    rcases FreeStore.exists_take (s := α.store) (chunkSlots_ne_nil positive) with ⟨y, rest, free⟩
    by_cases refused : α.store.free = [] ∧ granted = false
    · simp only [step, if_pos refused]
      exact Seen.noConfusion
    · simp only [step, if_neg refused, FreeStore.call, FreeStore.take_of_cons free]
      simp
  | get k => cases object : α.objects k <;> simp [step, object]
  | delete k => cases object : α.objects k <;> simp [step, object]

end Shelf

/-- The two versions of `Screen`, fed the same commands by systems that refuse
the same requests, show their clients the same: requests at the same steps, the
same slots, and for every live object the value it was constructed with. -/
theorem versions_agree {K₁ K₂ : PoolClass} (first : K₁.kind = .screenV1)
    (second : K₂.kind = .screenV2) (chunk : K₁.chunk = K₂.chunk) {m₁ m₂ : Machine}
    {es₁ es₂ : List (Cmd × Option Nat)} (same : es₁.map asked = es₂.map asked)
    (run₁ : Admissible (Screens.step K₁) (Screens.Valid K₁) (Screens.init m₁) es₁)
    (run₂ : Admissible (Screens.step K₂) (Screens.Valid K₂) (Screens.init m₂) es₂) :
    outputs (Screens.step K₁) (Screens.init m₁) es₁ =
        outputs (Screens.step K₂) (Screens.init m₂) es₂ ∧
      (∀ requested, .created requested none ∉ outputs (Screens.step K₁) (Screens.init m₁) es₁) ∧
      ∀ k answer, (after (Screens.step K₁) (Screens.init m₁) es₁).objects k ≠ none →
        ∃ x, (constructed (es₁.map Prod.fst))[k]? = some x ∧
          ((after (Screens.step K₁) (Screens.init m₁) es₁).step K₁ (.get k, answer)).2 = .value x ∧
          ((after (Screens.step K₂) (Screens.init m₂) es₂).step K₂ (.get k, answer)).2 =
            .value x := by
  rcases Screens.lockstep (Or.inl first) run₁ with ⟨held₁, seen₁⟩
  rcases Screens.lockstep (Or.inr second) run₂ with ⟨held₂, seen₂⟩
  rw [← same, ← chunk] at held₂ seen₂
  refine ⟨seen₁.trans seen₂.symm, fun requested member => ?_, fun k answer live => ?_⟩
  · rw [seen₁] at member
    exact forall_outputs (P := (· ≠ .created requested none))
      (fun α e => Shelf.created_slot K₁.chunk_pos α e requested) _ member rfl
  · rcases held₁.exists_object live with ⟨o, object, pointer₁⟩
    have value := (Shelf.objects_constructed (C := K₁.chunk) (es₁.map asked)).2 k o object
    have cmds : (es₁.map asked).map Prod.fst = es₁.map Prod.fst := List.map_map ..
    have pointer₂ := held₂.objects k
    rw [object, Option.map_some] at pointer₂
    rw [cmds] at value
    refine ⟨o.2, value, ?_, ?_⟩
    · simp only [Screens.step, pointer₁, held₁.values k o object]
    · simp only [Screens.step, pointer₂, held₂.values k o object]

/-- Objects in both versions, one deleted and its slot reused: the third object gets the slot of
the first. -/
theorem versions_agree_reuse :
    let cmds : List Cmd := [.new 7, .new 11, .get 0, .delete 0, .new 13, .get 1, .get 2]
    let es₁ := cmds.zip (some 4096 :: List.replicate 6 none)
    let es₂ := cmds.zip (some 65536 :: List.replicate 6 none)
    outputs (Screens.step .demoScreenV1) (Screens.init Machine.zero) es₁ =
        [.created true (some (0, 0)), .created false (some (0, 1)), .value 7, .deleted,
          .created false (some (0, 0)), .value 11, .value 13] ∧
      outputs (Screens.step .demoScreenV2) (Screens.init Machine.zero) es₂ =
        outputs (Screens.step .demoScreenV1) (Screens.init Machine.zero) es₁ ∧
      ((after (Screens.step .demoScreenV2) (Screens.init Machine.zero) es₂).step .demoScreenV2
        (.get 2, none)).2 = .value 13 := by
  intro cmds es₁ es₂
  obtain ⟨seen, _, values⟩ := @versions_agree .demoScreenV1 .demoScreenV2 rfl rfl rfl
    Machine.zero Machine.zero es₁ es₂ (by decide) (by decide +kernel) (by decide +kernel)
  rcases values 2 none (by decide +kernel) with ⟨x, constructed, _, value⟩
  obtain rfl : x = 13 := (Option.some.inj constructed).symm
  exact ⟨by decide +kernel, seen.symm, value⟩

end TorchTest.FixedPool
