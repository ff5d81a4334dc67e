import TorchTest.MyString.Source

/-!
# Every string has one owner

`World.Owns` is the invariant: each object owns a live buffer that holds its value, no
two objects own one, and there are no other live buffers. A constructor adds an object
with its buffer (`Owns.constructed`) and the destructor takes both away
(`Owns.destroyed`). An assignment of an object to itself changes nothing. One between two
objects frees and copies without a bad access, the source's buffer being another one, but then
reaches the end of `operator=` (`Owns.assign_other`). So a run keeps the invariant, and no call
of it goes wrong, exactly if it has no such assignment (`owned_of_run`).
-/

namespace TorchTest.MyString

/-! ## Constructors -/

/-- A constructor on the heap `h` either got an answer that `malloc` cannot give, or put
the string `s` in a fresh buffer and wrote nowhere else. -/
inductive Stores (h : CHeap) (s : List UInt8) (answer : Nat) : Except Fault (Nat × CHeap) → Prop
  | refused : Stores h s answer (.error .badAnswer)
  | stored {m : Mem} (fresh : h.Fresh (s.length + 1) answer) (holds : HoldsString m answer s)
      (others : ∀ a, a < answer ∨ answer + (s.length + 1) ≤ a → m a = h.mem a) :
      Stores h s answer (.ok (answer, { h.allocated (s.length + 1) answer with mem := m }))

variable {h : CHeap} {p answer : Nat} {s : List UInt8}

theorem mallocEmpty_stores (wf : h.Wf) (answer : Nat) :
    Stores h [] answer (mallocEmpty answer h) := by
  by_cases fresh : h.Fresh 1 answer
  · have write := CHeap.writeByte_of_writable (h := h.allocated 1 answer) (p := answer)
      ⟨_, List.mem_cons_self, Nat.le_refl _, Nat.lt_succ_self _⟩ 0
    simp only [mallocEmpty, (wf.malloc fresh Nat.one_pos).1, bind, Except.bind, write]
    exact .stored fresh (Mem.setByte_same ..) fun a outside =>
      Mem.setByte_other _ _ (by rw [List.length_nil] at outside; omega)
  · simp only [mallocEmpty, CHeap.malloc, if_neg fresh, bind, Except.bind]
    exact .refused

theorem mallocCopy_stores (wf : h.Wf) (limit : h.limit = addressSpace) (string : h.StringAt p s)
    (answer : Nat) : Stores h s answer (mallocCopy p answer h) := by
  have short := wf.length_lt string
  have size : SizeT.add s.length 1 = s.length + 1 := SizeT.add_eq (limit ▸ short)
  by_cases fresh : h.Fresh (s.length + 1) answer
  · rcases wf.strcpy string fresh with ⟨m, copied, holds, others⟩
    simp only [mallocCopy, wf.strlen string, size, (wf.malloc fresh (Nat.succ_pos _)).1, bind,
      Except.bind, copied]
    exact .stored fresh holds others
  · simp only [mallocCopy, wf.strlen string, size, CHeap.malloc, if_neg fresh, bind, Except.bind]
    exact .refused

variable {ι : Type}

namespace World

/-- Each object owns a live buffer with its value and the NUL, and no two objects own one
buffer; every live buffer has an owner, and every other buffer there has been was freed
once. -/
structure Owns (w : World ι) (V : Values ι) : Prop where
  wf : w.heap.Wf
  limit : w.heap.limit = addressSpace
  exist : ∀ x, w.objects x = none ↔ V x = none
  holds : ∀ x p s, w.objects x = some p → V x = some s →
    ∃ b ∈ w.heap.live, b.start = p ∧ b.length = s.length + 1 ∧ HoldsString w.heap.mem p s
  sole : ∀ x y p, w.objects x = some p → w.objects y = some p → x = y
  owned : ∀ b ∈ w.heap.live, ∃ x, w.objects x = some b.start

theorem owns_init {mem : Mem} {outside : List Interval}
    (bounds : ∀ I ∈ outside, 0 < I.start ∧ I.stop < addressSpace) :
    (init mem outside : World ι).Owns fun _ => none where
  wf := CHeap.wf_init bounds
  limit := rfl
  exist _ := ⟨fun _ => rfl, fun _ => rfl⟩
  holds _ _ _ some := nomatch some
  sole _ _ _ some := nomatch some
  owned _ member := nomatch member

section

variable {w : World ι} {V : Values ι} {x y : ι}

/-- The string of an object can be read. -/
theorem Owns.string (owns : w.Owns V) (object : w.objects x = some p) (value : V x = some s) :
    w.heap.StringAt p s := by
  rcases owns.holds x p s object value with ⟨b, live, rfl, length, holds⟩
  refine ⟨holds, fun a lower upper => Or.inl ⟨b, live, lower, ?_⟩⟩
  simp only [Buffer.span, length]
  exact upper

/-- An object has a value and a buffer. -/
theorem Owns.exists_buffer (owns : w.Owns V) (object : w.objects x = some p) :
    ∃ s, V x = some s ∧ ∃ b ∈ w.heap.live, b.start = p := by
  cases value : V x with
  | none =>
    rw [(owns.exist x).mpr value] at object
    cases object
  | some s =>
    rcases owns.holds x p s object value with ⟨b, live, start, _⟩
    exact ⟨s, rfl, b, live, start⟩

/-- A fresh buffer is not one that an object has. -/
theorem Owns.ne_of_fresh (owns : w.Owns V) (object : w.objects x = some p) {size : Nat}
    (fresh : w.heap.Fresh (size + 1) answer) : p ≠ answer := by
  rcases owns.exists_buffer object with ⟨_, _, b, live, rfl⟩
  have apart := fresh.2.2.1 b live
  have positive := (owns.wf.bounds b live).2.1
  simp only [Interval.Apart, Interval.stop, Buffer.span] at apart
  omega

/-- A byte in no buffer may change. -/
theorem Owns.written (owns : w.Owns V) {a : Nat} (v : UInt8) (outside : ¬w.heap.Writable a) :
    ({ w with heap := { w.heap with mem := w.heap.mem.setByte a v } } : World ι).Owns V := by
  refine { owns with wf := owns.wf.withMem _, holds := fun x q t object value => ?_ }
  rcases owns.holds x q t object value with ⟨b, live, rfl, length, holds⟩
  refine ⟨b, live, rfl, length, holds.congr fun c lower upper => Mem.setByte_other _ _ ?_⟩
  rintro rfl
  exact outside ⟨b, live, lower, by rwa [Buffer.span, length]⟩

end

variable [DecidableEq ι]

namespace Owns

variable {w : World ι} {V : Values ι} {x y : ι} {r : Except Fault (Nat × CHeap)}

/-- A constructor adds an object with its own buffer. -/
theorem constructed (owns : w.Owns V) (absent : w.objects x = none)
    (stores : Stores w.heap s answer r) (granted : (w.constructed x r).2 ≠ .faulted .badAnswer) :
    (w.constructed x r).1.Owns (Function.update V x (some s)) ∧
      ∀ f, (w.constructed x r).2 ≠ .faulted f := by
  cases stores with
  | refused => exact absurd rfl granted
  | @stored m fresh holds others =>
    refine ⟨?_, nofun⟩
    refine
      { wf := (owns.wf.malloc fresh (Nat.succ_pos _)).2.withMem m, limit := owns.limit, exist := ?_,
        holds := ?_, sole := ?_, owned := ?_ }
    · intro y
      rcases eq_or_ne y x with rfl | other
      · simp [World.constructed]
      · simp only [World.constructed, Function.update_of_ne other]
        exact owns.exist y
    · intro y q t object value
      simp only [World.constructed] at object
      rcases eq_or_ne y x with rfl | other
      · rw [Function.update_self, Option.some.injEq] at object value
        subst object
        subst value
        exact ⟨_, List.mem_cons_self, rfl, rfl, holds⟩
      · rw [Function.update_of_ne other] at object value
        rcases owns.holds y q t object value with ⟨b, live, rfl, length, old⟩
        refine ⟨b, List.mem_cons_of_mem _ live, rfl, length, old.congr fun a lower upper => ?_⟩
        have apart := fresh.2.2.1 b live
        simp only [Interval.Apart, Interval.stop, Buffer.span] at apart
        exact others a (by omega)
    · intro y z q left right
      simp only [World.constructed] at left right
      rcases eq_or_ne y x with rfl | other
      · rw [Function.update_self, Option.some.injEq] at left
        rcases eq_or_ne z y with rfl | other
        · rfl
        · rw [Function.update_of_ne other] at right
          exact absurd left.symm (owns.ne_of_fresh right fresh)
      · rw [Function.update_of_ne other] at left
        rcases eq_or_ne z x with rfl | different
        · rw [Function.update_self, Option.some.injEq] at right
          exact absurd right.symm (owns.ne_of_fresh left fresh)
        · rw [Function.update_of_ne different] at right
          exact owns.sole y z q left right
    · intro b member
      rcases List.mem_cons.mp member with rfl | live
      · exact ⟨x, Function.update_self ..⟩
      · rcases owns.owned b live with ⟨y, object⟩
        have other : y ≠ x := by
          rintro rfl
          rw [absent] at object
          cases object
        exact ⟨y, by simp only [World.constructed, Function.update_of_ne other, object]⟩

/-- The destructor takes an object away with its buffer. -/
theorem destroyed (owns : w.Owns V) (object : w.objects x = some p) :
    ∃ b ∈ w.heap.live, b.start = p ∧ w.heap.free p = .ok (w.heap.released b) ∧
      ({ heap := w.heap.released b, objects := Function.update w.objects x none } : World ι).Owns
        (Function.update V x none) := by
  rcases owns.exists_buffer object with ⟨_, _, b, live, rfl⟩
  rcases owns.wf.free live with ⟨freed, wf⟩
  refine ⟨b, live, rfl, freed, ?_⟩
  refine
    { wf := wf, limit := owns.limit, exist := ?_, holds := ?_, sole := ?_, owned := ?_ }
  · intro y
    rcases eq_or_ne y x with rfl | other
    · simp
    · simp only [Function.update_of_ne other]
      exact owns.exist y
  · intro y q t object' value
    rcases eq_or_ne y x with rfl | other
    · rw [Function.update_self] at value
      cases value
    · simp only [Function.update_of_ne other] at object' value
      rcases owns.holds y q t object' value with ⟨c, live', rfl, length, holds⟩
      refine ⟨c, (List.mem_erase_of_ne ?_).mpr live', rfl, length, holds⟩
      rintro rfl
      exact other (owns.sole y x _ object' object)
  · intro y z q left right
    simp only at left right
    rcases eq_or_ne y x with rfl | other
    · rw [Function.update_self] at left
      cases left
    · rw [Function.update_of_ne other] at left
      rcases eq_or_ne z x with rfl | different
      · rw [Function.update_self] at right
        cases right
      · rw [Function.update_of_ne different] at right
        exact owns.sole y z q left right
  · intro c member
    rcases owns.wf.nodup.mem_erase_iff.mp member with ⟨different, live'⟩
    rcases owns.owned c live' with ⟨y, object'⟩
    have other : y ≠ x := by
      rintro rfl
      rw [object, Option.some.injEq] at object'
      exact different (owns.wf.start_inj live' live object'.symm)
    exact ⟨y, by simp only [Function.update_of_ne other, object']⟩

/-- An assignment of an object to itself does nothing and yields the object. -/
theorem assign_self (object : w.objects x = some p) (answer : Nat) :
    w.step (.assign x x answer) = (w, .yielded x) := by
  have same : Function.update w.objects x (some p) = w.objects := by
    rw [← object, Function.update_eq_self]
  simp only [step, object, assign, if_true, same]

/-- An assignment between two objects frees the one buffer and copies the other, and then
gets to the end of the function. -/
theorem assign_other (owns : w.Owns V) (object : w.objects x = some p) {source : Nat}
    (other : w.objects y = some source) (different : x ≠ y)
    (granted : (w.step (.assign x y answer)).2 ≠ .faulted .badAnswer) :
    w.step (.assign x y answer) = (w, .faulted .noReturn) := by
  have apart : source ≠ p := fun same => different (owns.sole x y p object (same ▸ other))
  rcases owns.destroyed object with ⟨b, live, rfl, freed, destroyed⟩
  rcases owns.exists_buffer other with ⟨s, value, _⟩
  -- the source is still there when its string is read
  have object' : Function.update w.objects x none y = some source := by
    rwa [Function.update_of_ne different.symm]
  have value' : Function.update V x none y = some s := by
    rwa [Function.update_of_ne different.symm]
  have string := destroyed.string object' value'
  have stores := mallocCopy_stores destroyed.wf destroyed.limit string answer
  have result : w.step (.assign x y answer) =
      match mallocCopy source answer (w.heap.released b) with
      | .ok _ => (w, .faulted .noReturn)
      | .error f => (w, .faulted f) := by
    simp only [step, object, other, assign, if_neg apart, freed, bind, Except.bind]
    cases mallocCopy source answer (w.heap.released b) <;> rfl
  rw [result] at granted ⊢
  cases copied : mallocCopy source answer (w.heap.released b) with
  | ok r => rfl
  | error f =>
    rw [copied] at stores granted
    cases stores
    exact absurd rfl granted

end Owns

/-- An assignment yields its object. -/
def Yields (w : World ι) : Event ι → Prop
  | .assign x other answer => (w.step (.assign x other answer)).2 = .yielded x
  | _ => True

instance (w : World ι) : ∀ e, Decidable (w.Yields e)
  | .assign x other answer =>
      inferInstanceAs (Decidable ((w.step (.assign x other answer)).2 = .yielded x))
  | .default _ _ => isTrue True.intro
  | .construct _ _ _ => isTrue True.intro
  | .copy _ _ _ => isTrue True.intro
  | .destroy _ => isTrue True.intro
  | .write _ _ => isTrue True.intro

end World

/-- An assignment is one of an object to itself. -/
def Event.OnlySelf : Event ι → Prop
  | .assign x other _ => x = other
  | _ => True

namespace World

variable [DecidableEq ι] {w : World ι} {V : Values ι} {e : Event ι} {es : List (Event ι)}

/-- A valid event that is no assignment between two objects keeps the owners, completes, and
yields its object. -/
theorem Owns.step (owns : w.Owns V) (valid : w.Valid e) (self : e.OnlySelf) :
    (w.step e).1.Owns (V.step e) ∧ (∀ f, (w.step e).2 ≠ .faulted f) ∧ w.Yields e := by
  rcases valid with ⟨client, granted⟩
  cases e with
  | default x answer =>
    have made := owns.constructed client (mallocEmpty_stores owns.wf answer) granted
    exact ⟨made.1, made.2, True.intro⟩
  | construct x chars answer =>
    cases chars with
    | none =>
      have made := owns.constructed client (mallocEmpty_stores owns.wf answer) granted
      exact ⟨made.1, made.2, True.intro⟩
    | some chars =>
      rcases client with ⟨absent, string⟩
      have nonzero : chars.ptr ≠ 0 := by
        have first := owns.wf.readable_bounds
          (string.readable chars.ptr (Nat.le_refl _) (by omega))
        omega
      have same : ctorChars chars.ptr answer w.heap = mallocCopy chars.ptr answer w.heap :=
        if_pos nonzero
      simp only [World.step, same] at granted ⊢
      have stores := mallocCopy_stores owns.wf owns.limit string answer
      have made := owns.constructed absent stores granted
      exact ⟨made.1, made.2, True.intro⟩
  | copy x other answer =>
    rcases client with ⟨absent, exists_⟩
    rcases Option.ne_none_iff_exists'.mp exists_ with ⟨p, object⟩
    rcases owns.exists_buffer object with ⟨s, value, b, live, rfl⟩
    have same : ctorCopy b.start answer w.heap = mallocCopy b.start answer w.heap :=
      if_pos (owns.wf.bounds b live).1.ne'
    simp only [World.step, object, same] at granted ⊢
    have stores := mallocCopy_stores owns.wf owns.limit (owns.string object value) answer
    have made := owns.constructed absent stores granted
    refine ⟨?_, made.2, True.intro⟩
    rw [Values.step, value]
    exact made.1
  | assign x other answer =>
    obtain rfl : x = other := self
    rcases Option.ne_none_iff_exists'.mp client.1 with ⟨p, object⟩
    have kept : Values.step V (.assign x x answer) = V := Function.update_eq_self x V
    simp only [Yields, Owns.assign_self object, kept]
    exact ⟨owns, nofun, True.intro⟩
  | destroy x =>
    rcases Option.ne_none_iff_exists'.mp client with ⟨p, object⟩
    rcases owns.destroyed object with ⟨b, live, rfl, freed, destroyed⟩
    have same : dtor b.start w.heap = .ok (w.heap.released b) :=
      (if_pos (owns.wf.bounds b live).1.ne').trans freed
    simp only [World.step, object, same]
    exact ⟨destroyed, nofun, True.intro⟩
  | write a v => exact ⟨owns.written v client, nofun, True.intro⟩

/-- The others are the ones that go wrong, for want of a `return`. -/
theorem Owns.step_other (owns : w.Owns V) (valid : w.Valid e) (other : ¬e.OnlySelf) :
    w.step e = (w, .faulted .noReturn) := by
  cases e with
  | assign x y answer =>
    rcases Option.ne_none_iff_exists'.mp valid.1.1 with ⟨p, object⟩
    rcases Option.ne_none_iff_exists'.mp valid.1.2 with ⟨source, object'⟩
    exact owns.assign_other object object' other valid.2
  | _ => exact absurd True.intro other

theorem Owns.run (owns : w.Owns V) (run : Admissible World.step Valid w es)
    (self : ∀ e ∈ es, e.OnlySelf) :
    (after World.step w es).Owns (es.foldl Values.step V) ∧
      (∀ r ∈ outputs World.step w es, ∀ f, r ≠ .faulted f) ∧ Admissible World.step Yields w es := by
  induction es generalizing w V with
  | nil => exact ⟨owns, nofun, True.intro⟩
  | cons e es ih =>
    rw [List.forall_mem_cons] at self
    rcases owns.step run.1 self.1 with ⟨owns', completed, yields⟩
    rcases ih owns' run.2 self.2 with ⟨final, rest, yields'⟩
    exact ⟨final, List.forall_mem_cons.mpr ⟨completed, rest⟩, yields, yields'⟩

/-- A run that does not go wrong has no assignment between two objects. -/
theorem Owns.onlySelf_of_run (owns : w.Owns V) (run : Admissible World.step Valid w es)
    (complete : ∀ r ∈ outputs World.step w es, ∀ f, r ≠ .faulted f) : ∀ e ∈ es, e.OnlySelf := by
  induction es generalizing w V with
  | nil => exact nofun
  | cons e es ih =>
    rw [outputs_cons, List.forall_mem_cons] at complete
    have self : e.OnlySelf := by
      by_contra other
      exact complete.1 .noReturn (congrArg Prod.snd (owns.step_other run.1 other))
    have owns' := (owns.step run.1 self).1
    exact List.forall_mem_cons.mpr ⟨self, ih owns' run.2 complete.2⟩

end World

variable [DecidableEq ι]

open World in
/-- In a valid run, from no objects over any memory, at every point each object owns a buffer
of its own that holds its value, and every other buffer there has been was freed once, no call
goes wrong, and the assignments yield their objects, exactly if no assignment is one between
two objects. -/
theorem owned_of_run {mem : Mem} {outside : List Interval}
    (bounds : ∀ I ∈ outside, 0 < I.start ∧ I.stop < addressSpace) {es : List (Event ι)}
    (run : Admissible step Valid (init mem outside) es) :
    (∀ k, (after step (init mem outside) (es.take k)).Owns
        ((es.take k).foldl Values.step fun _ => none)) ∧
      (∀ r ∈ outputs step (init mem outside) es, ∀ f, r ≠ .faulted f) ∧
      Admissible step Yields (init mem outside) es ↔
    ∀ e ∈ es, e.OnlySelf := by
  have start : (init mem outside : World ι).Owns fun _ => none := owns_init bounds
  constructor
  · rintro ⟨_, complete, _⟩
    exact start.onlySelf_of_run run complete
  · intro self
    refine ⟨fun k => ?_, (start.run run self).2⟩
    rw [← List.take_append_drop k es] at run
    exact (start.run (admissible_append.mp run).1 fun e member =>
      self e (List.mem_of_mem_take member)).1

/-- The caller has `hi` at 256. -/
def callerMem : Mem := fun a => if a = 256 then 104 else if a = 257 then 105 else 0

open World in
/-- A string, a copy of it that is assigned to itself, and an empty string in the buffer of
the first. -/
theorem owned_of_run_self :
    let es : List (Event Bool) :=
      [.construct false (some ⟨256, [104, 105]⟩) 4096, .copy true false 8192, .write 256 0,
        .assign true true 0, .destroy false, .default false 4096]
    (after step (init callerMem [⟨256, 16⟩]) es).Owns
        (fun x => some (if x then [104, 105] else [])) ∧
      Admissible step Yields (init callerMem [⟨256, 16⟩]) es := by
  intro es
  rcases (@owned_of_run Bool _ callerMem [⟨256, 16⟩] (by decide) es (by decide +kernel)).mpr
    (by simp [es, Event.OnlySelf]) with ⟨owns, _, yields⟩
  have values : es.foldl Values.step (fun _ => none) =
      fun x => some (if x then [104, 105] else []) := by
    funext x
    cases x <;> rfl
  exact ⟨values ▸ owns 6, yields⟩

open World in
/-- One object is assigned another: the run is valid, and goes wrong at the end of the
function. -/
theorem assignment_without_return :
    let es : List (Event Bool) :=
      [.construct false (some ⟨256, [104, 105]⟩) 4096, .default true 8192,
        .assign true false 12288]
    Admissible step Valid (init callerMem [⟨256, 16⟩]) es ∧
      outputs step (init callerMem [⟨256, 16⟩]) es = [.done, .done, .faulted .noReturn] ∧
      ¬Admissible step Yields (init callerMem [⟨256, 16⟩]) es := by
  decide +kernel

end TorchTest.MyString
