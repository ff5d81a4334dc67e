import Mathlib.Logic.Equiv.Basic
import TorchTest.Library.Linearization
import TorchTest.MyString.Ownership

/-!
# Constructors over objects

The test `array_new_array_delete` makes an array of strings and then constructs every one
of them again, with placement `new` and without a destructor. A constructor does not look
at the `ptr_` that it overwrites, so each time one buffer is left with no owner. Nothing
else goes wrong as long as no object is assigned another: the objects own buffers as before,
and the lost ones are never freed (`leaks_of_run`).

Lost buffers are followed by giving them names of their own: a run over the names `ι` is a
run over `ι ⊕ Nat` in which an object is renamed before a constructor runs over it. The
invariant `Owns` does not mind names (`Owns.rename`).
-/

namespace TorchTest.MyString

variable {ι : Type}

namespace Event

/-- The object that is constructed. -/
def constructs : Event ι → Option ι
  | .default x _ | .construct x _ _ | .copy x _ _ => some x
  | _ => none

/-- The event where lost buffers have names. -/
def inl : Event ι → Event (ι ⊕ Nat)
  | .default x answer => .default (.inl x) answer
  | .construct x chars answer => .construct (.inl x) chars answer
  | .copy x other answer => .copy (.inl x) (.inl other) answer
  | .assign x other answer => .assign (.inl x) (.inl other) answer
  | .destroy x => .destroy (.inl x)
  | .write a v => .write a v

end Event

/-- An assignment of an object to itself stays one. -/
theorem Event.OnlySelf.inl {e : Event ι} (self : e.OnlySelf) : e.inl.OnlySelf := by
  cases e with
  | assign x other answer => exact congrArg Sum.inl self
  | _ => exact True.intro

/-- The values, and those that the lost buffers had. -/
def Values.remembering (V : Values ι) (lost : List (Nat × List UInt8)) : Values (ι ⊕ Nat) :=
  Sum.elim V fun k => lost[k]?.map Prod.snd

namespace World

/-- The invariant does not mind names. -/
theorem Owns.rename {w : World ι} {V : Values ι} (owns : w.Owns V) (σ : Equiv.Perm ι) :
    ({ w with objects := w.objects ∘ σ } : World ι).Owns (V ∘ σ) where
  wf := owns.wf
  limit := owns.limit
  exist x := owns.exist (σ x)
  holds x := owns.holds (σ x)
  sole x y p left right := σ.injective (owns.sole (σ x) (σ y) p left right)
  owned b live := by
    rcases owns.owned b live with ⟨x, object⟩
    exact ⟨σ.symm x, by simpa using object⟩

/-- The objects, and the lost buffers in order. -/
def remembering (w : World ι) (lost : List (Nat × List UInt8)) : World (ι ⊕ Nat) :=
  { heap := w.heap, objects := Sum.elim w.objects fun k => lost[k]?.map Prod.fst }

variable [DecidableEq ι] {w : World ι} {V : Values ι} {e : Event ι} {x : ι} {p : Nat}
  {s : List UInt8} {lost : List (Nat × List UInt8)} {es : List (Event ι)}

/-- Without the object that the event constructs, if there is one already. -/
def forgetting (w : World ι) (e : Event ι) : World ι :=
  { w with objects := e.constructs.elim w.objects fun x => Function.update w.objects x none }

/-- A constructor runs over an object. -/
def Overwrites (w : World ι) (e : Event ι) : Prop := ∃ x ∈ e.constructs, w.objects x ≠ none

instance (w : World ι) (e : Event ι) : Decidable (w.Overwrites e) :=
  inferInstanceAs (Decidable (∃ x ∈ e.constructs, w.objects x ≠ none))

/-- An event that the caller is entitled to but for an object that a constructor runs
over. -/
def Placeable (w : World ι) (e : Event ι) : Prop :=
  (w.forgetting e).ClientOk e ∧ (w.step e).2 ≠ .faulted .badAnswer

instance (w : World ι) (e : Event ι) : Decidable (w.Placeable e) :=
  inferInstanceAs (Decidable (_ ∧ _))

/-! ## Names for lost buffers -/

/-- An event does the same where lost buffers have names. -/
theorem step_remembering (w : World ι) (lost : List (Nat × List UInt8)) (e : Event ι) :
    ((w.remembering lost).step e.inl).1 = (w.step e).1.remembering lost ∧
      ∀ f, ((w.remembering lost).step e.inl).2 = .faulted f ↔ (w.step e).2 = .faulted f := by
  have constructed : ∀ x r, ((w.remembering lost).constructed (.inl x) r).1 =
      (w.constructed x r).1.remembering lost ∧
      ∀ f, ((w.remembering lost).constructed (.inl x) r).2 = .faulted f ↔
        (w.constructed x r).2 = .faulted f := by
    intro x r
    cases r with
    | error f => exact ⟨rfl, fun f => by simp [World.constructed]⟩
    | ok r => exact ⟨congrArg (World.mk r.2) Sum.update_elim_inl, fun f => by simp [World.constructed]⟩
  cases e with
  | default x answer => exact constructed x _
  | construct x chars answer => cases chars <;> exact constructed x _
  | copy x other answer =>
    cases object : w.objects other with
    | none => simp [step, Event.inl, remembering, object]
    | some q =>
      have found : (w.remembering lost).objects (.inl other) = some q := object
      simp only [step, Event.inl, object, found]
      exact constructed x _
  | assign x other answer =>
    cases object : w.objects x with
    | none => simp [step, Event.inl, remembering, object]
    | some q =>
      cases source : w.objects other with
      | none => simp [step, Event.inl, remembering, object, source]
      | some q' =>
        have found : (w.remembering lost).objects (.inl x) = some q := object
        have found' : (w.remembering lost).objects (.inl other) = some q' := source
        have heap : (w.remembering lost).heap = w.heap := rfl
        simp only [step, Event.inl, object, source, found, found', heap]
        cases MyString.assign q q' answer w.heap with
        | error f => exact ⟨rfl, fun f => by simp⟩
        | ok r => exact ⟨congrArg (World.mk r.2) Sum.update_elim_inl, fun f => by simp⟩
  | destroy x =>
    cases object : w.objects x with
    | none => simp [step, Event.inl, remembering, object]
    | some q =>
      have found : (w.remembering lost).objects (.inl x) = some q := object
      have heap : (w.remembering lost).heap = w.heap := rfl
      simp only [step, Event.inl, object, found, heap]
      cases dtor q w.heap with
      | error f => exact ⟨rfl, fun f => by simp⟩
      | ok h => exact ⟨congrArg (World.mk h) Sum.update_elim_inl, fun f => by simp⟩
  | write a v => exact ⟨rfl, fun f => by simp [step, Event.inl]⟩

/-- So do the values. -/
theorem values_remembering (V : Values ι) (lost : List (Nat × List UInt8)) (e : Event ι) :
    (V.remembering lost).step e.inl = (V.step e).remembering lost := by
  cases e with
  | construct x chars answer => cases chars <;> exact Sum.update_elim_inl
  | write a v => rfl
  | _ => exact Sum.update_elim_inl

omit [DecidableEq ι] in
theorem clientOk_remembering (w : World ι) (lost : List (Nat × List UInt8)) (e : Event ι) :
    (w.remembering lost).ClientOk e.inl ↔ w.ClientOk e := by
  cases e with
  | construct x chars answer => cases chars <;> exact Iff.rfl
  | _ => exact Iff.rfl

/-- An object gets the next name of a lost buffer. -/
theorem Owns.forget (owns : (w.remembering lost).Owns (V.remembering lost))
    (object : w.objects x = some p) (value : V x = some s) :
    (World.remembering { w with objects := Function.update w.objects x none }
      (lost ++ [(p, s)])).Owns
      (Values.remembering (Function.update V x none) (lost ++ [(p, s)])) := by
  have renamed := owns.rename (Equiv.swap (.inl x) (.inr lost.length))
  have swap : ∀ {β : Type} (f : ι → Option β) (g : Nat × List UInt8 → β), f x = some (g (p, s)) →
      Sum.elim f (fun k => lost[k]?.map g) ∘ Equiv.swap (Sum.inl x) (Sum.inr lost.length) =
        Sum.elim (Function.update f x none) fun k => (lost ++ [(p, s)])[k]?.map g := by
    intro β f g found
    funext name
    cases name with
    | inl y =>
      rcases eq_or_ne y x with rfl | other
      · simp
      · simp [Equiv.swap_apply_of_ne_of_ne, other]
    | inr k =>
      rcases Nat.lt_trichotomy k lost.length with less | rfl | more
      · simp [Equiv.swap_apply_of_ne_of_ne, less.ne, List.getElem?_append_left less]
      · simp [found]
      · have none : lost[k]? = none := List.getElem?_eq_none more.le
        have none' : (lost ++ [(p, s)])[k]? = Option.none :=
          List.getElem?_eq_none (by rw [List.length_append]; exact more)
        simp [Equiv.swap_apply_of_ne_of_ne, more.ne', none, none']
  have objects := swap w.objects Prod.fst object
  have values := swap V Prod.snd value
  unfold Values.remembering at renamed ⊢
  rw [values] at renamed
  unfold remembering at renamed ⊢
  simp only [objects] at renamed
  exact renamed

/-- Without the object that is there already, a constructor does the same. -/
theorem step_forgetting (ok : (w.forgetting e).ClientOk e) :
    ((w.forgetting e).step e).2 = (w.step e).2 ∧
      ((∀ f, (w.step e).2 ≠ .faulted f) → (w.forgetting e).step e = w.step e) := by
  have constructed : ∀ x r,
      ((World.mk w.heap (Function.update w.objects x none)).constructed x r).2 =
        (w.constructed x r).2 ∧ ((∀ f, (w.constructed x r).2 ≠ .faulted f) →
      (World.mk w.heap (Function.update w.objects x none)).constructed x r =
        w.constructed x r) := by
    intro x r
    cases r with
    | error f => exact ⟨rfl, fun complete => absurd rfl (complete f)⟩
    | ok r => exact ⟨rfl, fun _ => by simp [World.constructed]⟩
  cases e with
  | default x answer => exact constructed x _
  | construct x chars answer => cases chars <;> exact constructed x _
  | copy x other answer =>
    have different : other ≠ x := by
      rintro rfl
      exact ok.2 (Function.update_self ..)
    cases object : w.objects other with
    | none => exact absurd ((Function.update_of_ne different ..).trans object) ok.2
    | some q =>
      have found : (w.forgetting (.copy x other answer)).objects other = some q :=
        (Function.update_of_ne different ..).trans object
      simp only [step, object, found]
      exact constructed x _
  | _ => exact ⟨rfl, fun _ => rfl⟩

/-- So do the values. -/
theorem values_forgetting (ok : (w.forgetting e).ClientOk e) (constructs : x ∈ e.constructs) :
    Values.step (Function.update V x none) e = V.step e := by
  cases e with
  | default y answer =>
    cases constructs
    exact Function.update_idem ..
  | construct y chars answer =>
    cases constructs
    cases chars <;> exact Function.update_idem ..
  | copy y other answer =>
    cases constructs
    have different : other ≠ x := by
      rintro rfl
      exact ok.2 (Function.update_self ..)
    simp only [Values.step, Function.update_of_ne different, Function.update_idem]
  | _ => cases constructs

/-- The lost buffers once the event has taken the object away that it runs over. -/
theorem Owns.forgetting (owns : (w.remembering lost).Owns (V.remembering lost))
    (ok : (w.forgetting e).ClientOk e) :
    ∃ lost' V', ((w.forgetting e).remembering lost').Owns (Values.remembering V' lost') ∧
      Values.step V' e = V.step e ∧
      lost'.length = lost.length + if w.Overwrites e then 1 else 0 := by
  by_cases again : w.Overwrites e
  · rcases again with ⟨x, constructs, present⟩
    rcases Option.ne_none_iff_exists'.mp present with ⟨p, object⟩
    have named : (w.remembering lost).objects (.inl x) = some p := object
    rcases owns.exists_buffer named with ⟨s, value, _⟩
    have forgets : w.forgetting e = { w with objects := Function.update w.objects x none } := by
      rw [World.forgetting, Option.mem_def.mp constructs]
      rfl
    refine ⟨lost ++ [(p, s)], Function.update V x none, ?_, values_forgetting ok constructs, ?_⟩
    · rw [forgets]
      exact owns.forget object value
    · rw [if_pos ⟨x, constructs, present⟩, List.length_append]
      rfl
  · refine ⟨lost, V, ?_, rfl, by rw [if_neg again, Nat.add_zero]⟩
    have same : w.forgetting e = w := by
      unfold World.forgetting
      cases constructs : e.constructs with
      | none => rfl
      | some x =>
        have absent : w.objects x = none := by
          by_contra present
          exact again ⟨x, constructs, present⟩
        change World.mk w.heap (Function.update w.objects x none) = w
        rw [← absent, Function.update_eq_self]
    rw [same]
    exact owns

/-- An event loses the buffer of the object that it runs over, and no other. -/
theorem Owns.placed (owns : (w.remembering lost).Owns (V.remembering lost))
    (ok : w.Placeable e) (self : e.OnlySelf) :
    ∃ lost', ((w.step e).1.remembering lost').Owns ((V.step e).remembering lost') ∧
      lost'.length = lost.length + (if w.Overwrites e then 1 else 0) ∧
      ∀ f, (w.step e).2 ≠ .faulted f := by
  rcases ok with ⟨client, granted⟩
  rcases owns.forgetting client with ⟨lost', V', owns', values, length⟩
  rcases step_forgetting client with ⟨result, same⟩
  rcases step_remembering (w.forgetting e) lost' e with ⟨stepped, faults⟩
  have valid : ((w.forgetting e).remembering lost').Valid e.inl := by
    refine ⟨(clientOk_remembering ..).mpr client, fun bad => granted ?_⟩
    rw [← result]
    exact (faults _).mp bad
  rcases owns'.step valid self.inl with ⟨kept, complete, _⟩
  have complete' : ∀ f, (w.step e).2 ≠ .faulted f := fun f faulted =>
    complete f ((faults f).mpr (result.trans faulted))
  rw [stepped, values_remembering, values, same complete'] at kept
  exact ⟨lost', kept, length, complete'⟩

/-- How often a constructor ran over an object. -/
def overwrites (w : World ι) (es : List (Event ι)) : Nat :=
  (collect step (fun w e => if w.Overwrites e then [e] else []) w es).length

theorem Owns.placed_run (owns : (w.remembering lost).Owns (V.remembering lost))
    (run : Admissible World.step Placeable w es) (self : ∀ e ∈ es, e.OnlySelf) :
    ∃ lost', ((after World.step w es).remembering lost').Owns
        ((es.foldl Values.step V).remembering lost') ∧
      lost'.length = lost.length + w.overwrites es ∧
      ∀ r ∈ outputs World.step w es, ∀ f, r ≠ .faulted f := by
  induction es generalizing w V lost with
  | nil => exact ⟨lost, owns, rfl, nofun⟩
  | cons e es ih =>
    rw [List.forall_mem_cons] at self
    rcases owns.placed run.1 self.1 with ⟨lost', owns', length, complete⟩
    rcases ih owns' run.2 self.2 with ⟨lost'', final, length', rest⟩
    refine ⟨lost'', final, ?_, List.forall_mem_cons.mpr ⟨complete, rest⟩⟩
    have split : w.overwrites (e :: es) =
        (if w.Overwrites e then 1 else 0) + (w.step e).1.overwrites es := by
      unfold overwrites
      rw [collect_cons, List.length_append]
      split_ifs <;> rfl
    rw [length', length, split, Nat.add_assoc]

/-- Constructors may run over objects, without a destructor. As long as no object is assigned
another, still no call goes wrong, each object owns a buffer of its own with its value, and
every live buffer has one owner at most; but those without an owner are as many as the times
that a constructor ran over an object. -/
theorem leaks_of_run {mem : Mem} {outside : List Interval}
    (bounds : ∀ I ∈ outside, 0 < I.start ∧ I.stop < addressSpace)
    (run : Admissible step Placeable (init mem outside) es) (self : ∀ e ∈ es, e.OnlySelf) :
    let w := after step (init mem outside) es
    let V := es.foldl Values.step fun _ => none
    (∀ r ∈ outputs step (init mem outside) es, ∀ f, r ≠ .faulted f) ∧
      (∀ x p s, w.objects x = some p → V x = some s →
        ∃ b ∈ w.heap.live, b.start = p ∧ b.length = s.length + 1 ∧
          HoldsString w.heap.mem p s) ∧
      (∀ x y p, w.objects x = some p → w.objects y = some p → x = y) ∧
      ∃ lost : List Nat, lost.length = (init mem outside).overwrites es ∧ lost.Nodup ∧
        (∀ p ∈ lost, (∃ b ∈ w.heap.live, b.start = p) ∧ ∀ x, w.objects x ≠ some p) ∧
        ∀ b ∈ w.heap.live, b.start ∈ lost ∨ ∃ x, w.objects x = some b.start := by
  intro w V
  have start : ((init mem outside : World ι).remembering []).Owns
      (Values.remembering (fun _ => none) []) := by
    have none : ∀ {β : Type} (g : Nat × List UInt8 → β), (Sum.elim (fun _ : ι => Option.none)
        fun k : Nat => ([] : List (Nat × List UInt8))[k]?.map g) = fun _ => Option.none := by
      intro β g
      funext name
      cases name <;> rfl
    unfold World.remembering Values.remembering init
    rw [none, none]
    exact owns_init bounds
  rcases start.placed_run run self with ⟨lost, owns, length, complete⟩
  rw [List.length_nil, Nat.zero_add] at length
  refine ⟨complete, fun x => owns.holds (.inl x), fun x y p left right =>
    Sum.inl.inj (owns.sole (.inl x) (.inl y) p left right), lost.map Prod.fst, ?_, ?_, ?_, ?_⟩
  · rw [List.length_map, length]
  · refine List.nodup_iff_getElem?_ne_getElem?.mpr fun j k less short same => ?_
    rw [List.length_map] at short
    have object : (w.remembering lost).objects (.inr k) = some lost[k].1 := by
      simp [World.remembering, short]
    have object' : (w.remembering lost).objects (.inr j) = some lost[k].1 := by
      rw [List.getElem?_map, List.getElem?_map] at same
      exact same.trans object
    exact less.ne (Sum.inr.inj (owns.sole _ _ _ object' object))
  · intro p member
    rcases List.mem_map.mp member with ⟨⟨p, s⟩, among, rfl⟩
    rcases List.mem_iff_getElem?.mp among with ⟨k, at_k⟩
    have object : (w.remembering lost).objects (.inr k) = some p := congrArg (·.map Prod.fst) at_k
    rcases owns.exists_buffer object with ⟨_, _, buffer⟩
    refine ⟨buffer, fun x other => ?_⟩
    cases owns.sole (.inl x) (.inr k) p other object
  · intro b live
    rcases owns.owned b live with ⟨x | k, object⟩
    · exact .inr ⟨x, object⟩
    · rcases Option.map_eq_some_iff.mp object with ⟨⟨p, s⟩, at_k, same⟩
      exact .inl (List.mem_map.mpr ⟨_, List.mem_of_getElem? at_k, same⟩)

/-- As in the test, with two strings: after `delete[]` nothing is left but the buffers that
the first constructors had got. -/
theorem leaks_of_run_array :
    let es : List (Event (Fin 2)) :=
      [.default 0 4096, .default 1 8192, .construct 0 (some ⟨256, [104, 105]⟩) 12288,
        .construct 1 (some ⟨256, [104, 105]⟩) 16384, .destroy 1, .destroy 0]
    let w := after step (init callerMem [⟨256, 16⟩]) es
    (∀ x, w.objects x = none) ∧
      ∃ lost : List Nat, lost.length = 2 ∧ ∀ b ∈ w.heap.live, b.start ∈ lost := by
  intro es w
  have gone : ∀ x, w.objects x = none := by decide +kernel
  have run : Admissible step Placeable (init callerMem [⟨256, 16⟩]) es := by decide +kernel
  have self : ∀ e ∈ es, e.OnlySelf := by simp [es, Event.OnlySelf]
  rcases (leaks_of_run (by decide) run self).2.2.2 with ⟨lost, length, _, _, all⟩
  refine ⟨gone, lost, length.trans (by decide +kernel), fun b live => ?_⟩
  rcases all b live with found | ⟨x, object⟩
  · exact found
  · cases (gone x).symm.trans object

end World

end TorchTest.MyString
