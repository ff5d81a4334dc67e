import TorchTest.Deque.Source

/-!
# The map of a deque

`Holds map s ps` says that the map has the pointers to the nodes `ps`, from the index `s` on.
`std::copy` moves them towards the front, `std::copy_backward` towards the back, over
themselves where the two places overlap, and `copyTo` into another map.
-/

namespace TorchTest.Deque

/-- The map has pointers to the nodes `ps` from the index `s` on. -/
def Holds (map : List (Option Nat)) : Nat → List Nat → Prop
  | _, [] => True
  | s, p :: ps => map[s]? = some (some p) ∧ Holds map (s + 1) ps

variable {map map' : List (Option Nat)} {s r i p : Nat} {ps qs : List Nat}

theorem ok_bind {β γ : Type} (x : β) (f : β → Except Fault γ) : (Except.ok x >>= f) = f x := rfl

theorem entry_eq (at_i : map[i]? = some (some p)) : entry map i = .ok p := by
  rw [entry, at_i]

theorem setEntry_eq (p : Nat) (inside : i < map.length) :
    setEntry map i p = .ok (map.set i (some p)) :=
  if_pos inside

theorem holds_append :
    Holds map s (ps ++ qs) ↔ Holds map s ps ∧ Holds map (s + ps.length) qs := by
  induction ps generalizing s with
  | nil => exact (true_and _).symm.to_iff
  | cons p ps ih =>
    rw [List.cons_append, Holds, Holds, ih, and_assoc, List.length_cons, Nat.add_right_comm,
      Nat.add_assoc]

namespace Holds

theorem get (holds : Holds map s ps) {k : Nat} (at_k : ps[k]? = some p) :
    map[s + k]? = some (some p) := by
  induction ps generalizing s k with
  | nil => exact absurd at_k (by simp)
  | cons q ps ih =>
    cases k with
    | zero =>
      rw [List.getElem?_cons_zero] at at_k
      cases at_k
      exact holds.1
    | succ k =>
      rw [List.getElem?_cons_succ] at at_k
      have found := ih holds.2 at_k
      rwa [Nat.add_right_comm] at found

theorem last (holds : Holds map s (ps ++ [p])) : map[s + ps.length]? = some (some p) :=
  (holds_append.mp holds).2.1

theorem head (holds : Holds map s ps) (front : ps.head? = some p) : map[s]? = some (some p) := by
  rw [List.head?_eq_getElem?] at front
  exact holds.get front

/-- A map is as long as what it holds needs. -/
theorem bound (holds : Holds map s (ps ++ [p])) : s + ps.length < map.length :=
  (List.getElem?_eq_some_iff.mp holds.last).1

theorem congr (holds : Holds map s ps)
    (same : ∀ k, s ≤ k → k < s + ps.length → map'[k]? = map[k]?) : Holds map' s ps := by
  induction ps generalizing s with
  | nil => exact True.intro
  | cons p ps ih =>
    rw [List.length_cons] at same
    refine ⟨(same s le_rfl (by omega)).trans holds.1, ih holds.2 fun k after before => ?_⟩
    exact same k (by omega) (by omega)

/-- A write beside the nodes. -/
theorem set (holds : Holds map s ps) (v : Option Nat)
    (outside : i < s ∨ s + ps.length ≤ i) : Holds (map.set i v) s ps :=
  holds.congr fun k after before => List.getElem?_set_ne (by omega)

/-- A node is added behind. -/
theorem push (holds : Holds map s ps) (q : Nat) (room : s + ps.length < map.length) :
    Holds (map.set (s + ps.length) (some q)) s (ps ++ [q]) :=
  holds_append.mpr ⟨holds.set _ (.inr le_rfl), List.getElem?_set_self room, True.intro⟩

/-- A node is added in front. -/
theorem cons (holds : Holds map (s + 1) ps) (q : Nat) (room : s < map.length) :
    Holds (map.set s (some q)) s (q :: ps) :=
  ⟨List.getElem?_set_self room, holds.set _ (.inl (Nat.lt_succ_self s))⟩

/-- `std::copy` within a map, towards the front. -/
theorem copy (holds : Holds map s ps) (fits : r + ps.length ≤ map.length) (le : r ≤ s) :
    ∃ map', Deque.copy ps.length map s r = .ok map' ∧ map'.length = map.length ∧
      Holds map' r ps ∧ ∀ k < r, map'[k]? = map[k]? := by
  induction ps generalizing map s r with
  | nil => exact ⟨map, rfl, rfl, True.intro, fun k _ => rfl⟩
  | cons p ps ih =>
    rw [List.length_cons] at fits
    have inside : r < map.length := by omega
    have rest : Holds (map.set r (some p)) (s + 1) ps :=
      holds.2.set _ (.inl (Nat.lt_succ_of_le le))
    rcases ih rest (r := r + 1) (by rw [List.length_set]; omega) (by omega) with
      ⟨map', copied, length, held, before⟩
    refine ⟨map', ?_, length.trans List.length_set, ⟨?_, held⟩, fun k less => ?_⟩
    · rw [List.length_cons, Deque.copy, entry_eq holds.1, ok_bind,
        setEntry_eq p inside, ok_bind, copied]
    · rw [before r (Nat.lt_succ_self r), List.getElem?_set_self inside]
    · rw [before k (by omega), List.getElem?_set_ne (by omega)]

/-- `std::copy_backward` within a map, towards the back. -/
theorem copyBackward (holds : Holds map s ps) (fits : r + ps.length ≤ map.length) (le : s ≤ r) :
    ∃ map', Deque.copyBackward ps.length map (s + ps.length) (r + ps.length) = .ok map' ∧
      map'.length = map.length ∧ Holds map' r ps ∧
      ∀ k, r + ps.length ≤ k → map'[k]? = map[k]? := by
  induction ps using List.reverseRecOn generalizing map with
  | nil => exact ⟨map, rfl, rfl, True.intro, fun k _ => rfl⟩
  | append_singleton ps p ih =>
    rw [List.length_append, List.length_singleton] at fits ⊢
    have inside : r + ps.length < map.length := by omega
    have rest : Holds (map.set (r + ps.length) (some p)) s ps :=
      (holds_append.mp holds).1.set _ (.inr (by omega))
    obtain ⟨map', copied, length, held, behind⟩ := ih rest (by rw [List.length_set]; omega)
    refine ⟨map', ?_, length.trans List.length_set, holds_append.mpr ⟨held, ?_, True.intro⟩,
      fun k more => ?_⟩
    · rw [← Nat.add_assoc, ← Nat.add_assoc, Deque.copyBackward, before, ok_bind, before,
        ok_bind, entry_eq holds.last, ok_bind, setEntry_eq p inside,
        ok_bind, copied]
    · rw [behind _ le_rfl, List.getElem?_set_self inside]
    · rw [behind k (by omega), List.getElem?_set_ne (by omega)]

/-- `std::copy` into another map. -/
theorem copyTo (holds : Holds map s ps) (newMap : List (Option Nat))
    (fits : r + ps.length ≤ newMap.length) :
    ∃ map', Deque.copyTo map ps.length s newMap r = .ok map' ∧ map'.length = newMap.length ∧
      Holds map' r ps ∧ ∀ k < r, map'[k]? = newMap[k]? := by
  induction ps generalizing newMap s r with
  | nil => exact ⟨newMap, rfl, rfl, True.intro, fun k _ => rfl⟩
  | cons p ps ih =>
    rw [List.length_cons] at fits
    have inside : r < newMap.length := by omega
    have fits' : r + 1 + ps.length ≤ (newMap.set r (some p)).length := by
      rw [List.length_set]
      omega
    obtain ⟨map', copied, length, held, before⟩ := ih holds.2 (newMap.set r (some p)) fits'
    refine ⟨map', ?_, length.trans List.length_set, ⟨?_, held⟩, fun k less => ?_⟩
    · rw [List.length_cons, Deque.copyTo, entry_eq holds.1, ok_bind,
        setEntry_eq p inside, ok_bind, copied]
    · rw [before r (Nat.lt_succ_self r), List.getElem?_set_self inside]
    · rw [before k (by omega), List.getElem?_set_ne (by omega)]

end Holds

end TorchTest.Deque
