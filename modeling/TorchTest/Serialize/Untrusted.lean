import TorchTest.Serialize.RoundTrip

/-!
# Reading strings that nobody vouches for

A string that does not unpickle and a value of the wrong type end in an exception of
the library. What is left is the length. `restore(TensorKind)` checks it, and never
reads past the end. `restore(TensorOptionsKind)` does not, and does so exactly for
the vectors that are too short and otherwise in order (`Truncated`): each string
decodes to a value of the type that its position asks for, until there are no more
(`restore_safe_iff`).

`Overrun` is that failure. It is read off a computation piece by piece, by one
equivalence for each way to build one (`overrun_bind` and the others).
-/

namespace TorchTest.Serialize

variable {α β : Type}

/-- The computation stopped at an index past the end of a vector. -/
def Overrun (r : Except Failure α) : Prop := ∃ k, r = .error (.outOfRange k)

theorem overrun_bind {x : Except Failure α} {f : α → Except Failure β} :
    Overrun (x >>= f) ↔ Overrun x ∨ ∃ a, x = .ok a ∧ Overrun (f a) := by
  cases x with
  | error e => simp [Overrun, bind, Except.bind]
  | ok a => simp [Overrun, bind, Except.bind]

theorem not_overrun_call (r : Except String α) : ¬Overrun (call r) := by
  rintro ⟨k, same⟩
  cases r with
  | error e => cases same
  | ok a => cases same

theorem not_overrun_pure (a : α) : ¬Overrun (pure a : Except Failure α) := by
  rintro ⟨k, same⟩
  cases same

theorem overrun_index {vec : List α} {k : Nat} : Overrun (index vec k) ↔ vec.length ≤ k := by
  rw [← List.getElem?_eq_none_iff]
  unfold index
  cases vec[k]? with
  | none => simp [Overrun]
  | some a => simp [Overrun]

theorem bind_eq_ok {x : Except Failure α} {f : α → Except Failure β} {b : β} :
    (x >>= f) = .ok b ↔ ∃ a, x = .ok a ∧ f a = .ok b := by
  cases x with
  | error e => simp [bind, Except.bind]
  | ok a => simp [bind, Except.bind]

/-- Calls made on all members of a list return together, or one of them throws. -/
theorem mapM_call {f : α → Except String β} {xs : List α} {ys : List β} :
    xs.mapM (fun x => call (f x)) = .ok ys ↔ xs.map f = ys.map .ok := by
  induction xs generalizing ys with
  | nil => cases ys <;> simp [pure, Except.pure]
  | cons x xs ih =>
    rw [List.mapM_cons, List.map_cons, bind_eq_ok]
    constructor
    · rintro ⟨y, first, rest⟩
      rcases bind_eq_ok.mp rest with ⟨zs, later, all⟩
      cases all
      rw [List.map_cons, ih.mp later, call_eq_ok.mp first]
    · intro all
      cases ys with
      | nil => cases all
      | cons y ys =>
        rcases List.cons.inj all with ⟨first, later⟩
        exact ⟨y, call_eq_ok.mpr first, bind_eq_ok.mpr ⟨ys, ih.mpr later, rfl⟩⟩

theorem not_overrun_mapM (f : α → Except String β) (xs : List α) :
    ¬Overrun (xs.mapM fun x => call (f x)) := by
  induction xs with
  | nil => exact not_overrun_pure _
  | cons x xs ih =>
    rw [List.mapM_cons, overrun_bind]
    rintro (first | ⟨y, _, rest⟩)
    · exact not_overrun_call _ first
    · rcases overrun_bind.mp rest with rest | ⟨ys, _, last⟩
      · exact ih rest
      · exact not_overrun_pure _ last

/-- Reading the positions `k`, `k + 1` and so on of `n`, no more than `turns` of them and
each with what `P` says, ends past the last one. -/
def RunsOut (n : Nat) (P : Nat → Prop) : Nat → Nat → Prop
  | 0, _ => False
  | turns + 1, k => n ≤ k ∨ P k ∧ RunsOut n P turns (k + 1)

theorem runsOut_iff {n : Nat} {P : Nat → Prop} {turns k : Nat} (le : k ≤ n) :
    RunsOut n P turns k ↔ n < k + turns ∧ ∀ j, k ≤ j → j < n → P j := by
  induction turns generalizing k with
  | zero => simp only [RunsOut, Nat.add_zero, Nat.not_lt.mpr le, false_and]
  | succ turns ih =>
    unfold RunsOut
    rcases Nat.eq_or_lt_of_le le with rfl | lt
    · constructor
      · exact fun _ => ⟨by omega, fun j above below => absurd above (Nat.not_le.mpr below)⟩
      · exact fun _ => Or.inl (Nat.le_refl k)
    · rw [ih lt]
      constructor
      · rintro (past | ⟨this, short, rest⟩)
        · exact absurd past (Nat.not_le.mpr lt)
        · refine ⟨by omega, fun j above below => ?_⟩
          rcases Nat.eq_or_lt_of_le above with rfl | above
          · exact this
          · exact rest j above below
      · rintro ⟨short, all⟩
        exact Or.inr ⟨all k (Nat.le_refl k) lt, by omega, fun j above => all j (by omega)⟩

namespace Torch

/-- The value has the type that `restore(TensorOptionsKind)` wants at position `k`. -/
def Converts (T : Torch) : Nat → T.IValue → Prop
  | 0, v => ∃ t, T.toScalarType v = .ok t
  | 1, v => ∃ d, T.toDevice v = .ok d
  | 2, v => ∃ l, T.toLayout v = .ok l
  | 3, v => ∃ f, T.toMemoryFormat v = .ok f
  | 4, v => ∃ b, T.toBool v = .ok b
  | 5, v => ∃ b, T.toBool v = .ok b
  | _, _ => True

/-- There is a value at position `k`, and it has the type wanted there. -/
def FieldAt (T : Torch) (ivalueVec : List T.IValue) (k : Nat) : Prop :=
  ∃ v, ivalueVec[k]? = some v ∧ T.Converts k v

/-- There is a string at position `k`, and it decodes to a value for this position. -/
def DecodesAt (T : Torch) (strVec : List Bytes) (k : Nat) : Prop :=
  ∃ str v, strVec[k]? = some str ∧ T.pickleLoad str = .ok v ∧ T.Converts k v

/-- Fewer than six strings, each of which decodes to a value for its position. -/
def Truncated (T : Torch) (strVec : List Bytes) : Prop :=
  strVec.length < 6 ∧ ∀ k < strVec.length, T.DecodesAt strVec k

/-- `restore(TensorOptionsKind)` throws or returns, without a read past the end, and it
returns only what six strings decode to. -/
def SafeOptions (T : Torch) (strVec : List Bytes) : Prop :=
  ¬Overrun (T.restoreOptions strVec) ∧
    ∀ o, T.restoreOptions strVec = .ok o → 6 ≤ strVec.length ∧ ∀ k < 6, T.DecodesAt strVec k

/-- `restore(TensorKind)` throws or returns, without a read past the end, and it returns
only the tensor that the first string decodes to. -/
def SafeTensor (T : Torch) (strVec : List Bytes) : Prop :=
  ¬Overrun (T.restoreTensor strVec) ∧
    ∀ t, T.restoreTensor strVec = .ok t →
      ∃ str rest v, strVec = str :: rest ∧ T.pickleLoad str = .ok v ∧ T.toTensor v = .ok t

variable {T : Torch} {strVec : List Bytes} {ivalueVec : List T.IValue}

/-- What a string decodes to is the value at its position. -/
theorem decodesAt_iff (loads : strVec.map T.pickleLoad = ivalueVec.map .ok) (k : Nat) :
    T.DecodesAt strVec k ↔ T.FieldAt ivalueVec k := by
  have same := congrArg (·[k]?) loads
  simp only [List.getElem?_map] at same
  constructor
  · rintro ⟨str, v, string, load, converts⟩
    rw [string, Option.map_some, load] at same
    rcases Option.map_eq_some_iff.mp same.symm with ⟨u, value, ok⟩
    cases ok
    exact ⟨v, value, converts⟩
  · rintro ⟨v, value, converts⟩
    rw [value, Option.map_some] at same
    rcases Option.map_eq_some_iff.mp same with ⟨str, string, load⟩
    exact ⟨str, v, string, load, converts⟩

/-- Strings that all decode have a vector of values. -/
theorem exists_loads (load : ∀ str ∈ strVec, ∃ v, T.pickleLoad str = .ok v) :
    ∃ ivalueVec : List T.IValue, strVec.map T.pickleLoad = ivalueVec.map .ok := by
  induction strVec with
  | nil => exact ⟨[], rfl⟩
  | cons str strVec ih =>
    rcases load str List.mem_cons_self with ⟨v, first⟩
    rcases ih fun other member => load other (List.mem_cons_of_mem _ member) with ⟨vs, rest⟩
    exact ⟨v :: vs, by rw [List.map_cons, List.map_cons, first, rest]⟩

/-- Reading runs past the end when all strings decode and the fields run out. -/
theorem overrun_restoreOptions :
    Overrun (T.restoreOptions strVec) ↔ ∃ ivalueVec : List T.IValue,
      strVec.map T.pickleLoad = ivalueVec.map .ok ∧
        RunsOut ivalueVec.length (T.FieldAt ivalueVec) 6 0 := by
  simp only [restoreOptions, overrun_bind, overrun_index, not_overrun_mapM, not_overrun_call,
    not_overrun_pure, mapM_call, index_eq_ok, call_eq_ok, false_or, or_false, and_false,
    exists_false, exists_and_right, FieldAt, Converts, ← and_assoc, RunsOut]

/-- The fields of a short vector run out exactly when the strings are in order. -/
theorem overrun_iff_truncated : Overrun (T.restoreOptions strVec) ↔ T.Truncated strVec := by
  rw [overrun_restoreOptions]
  constructor
  · rintro ⟨ivalueVec, loads, out⟩
    have length := congrArg List.length loads
    rw [List.length_map, List.length_map] at length
    rcases (runsOut_iff (Nat.zero_le _)).mp out with ⟨short, fields⟩
    refine ⟨by omega, fun k below => (decodesAt_iff loads k).mpr ?_⟩
    exact fields k (Nat.zero_le k) (length ▸ below)
  · rintro ⟨short, decodes⟩
    have load : ∀ str ∈ strVec, ∃ v, T.pickleLoad str = .ok v := by
      intro str member
      rcases List.getElem_of_mem member with ⟨k, below, rfl⟩
      rcases decodes k below with ⟨str, v, string, load, _⟩
      rw [(List.getElem?_eq_some_iff.mp string).2]
      exact ⟨v, load⟩
    rcases exists_loads load with ⟨ivalueVec, loads⟩
    have length := congrArg List.length loads
    rw [List.length_map, List.length_map] at length
    refine ⟨ivalueVec, loads, (runsOut_iff (Nat.zero_le _)).mpr ⟨by omega, fun k _ below => ?_⟩⟩
    exact (decodesAt_iff loads k).mp (decodes k (length.symm ▸ below))

/-- Options are returned only if the first six strings decode to them. -/
theorem decodesAt_of_restoreOptions {o : T.TensorOptions}
    (returned : T.restoreOptions strVec = .ok o) : ∀ k < 6, T.DecodesAt strVec k := by
  simp only [restoreOptions, bind_eq_ok, mapM_call, index_eq_ok, call_eq_ok] at returned
  rcases returned with ⟨ivalueVec, loads, v₀, at₀, dtype, scalar, v₁, at₁, device, device', v₂, at₂,
    layout, layout', v₃, at₃, format, format', v₄, at₄, grad, grad', v₅, at₅, pinned, pinned', _⟩
  intro k below
  rw [decodesAt_iff loads]
  rcases k with _ | _ | _ | _ | _ | _ | k
  · exact ⟨v₀, at₀, dtype, scalar⟩
  · exact ⟨v₁, at₁, device, device'⟩
  · exact ⟨v₂, at₂, layout, layout'⟩
  · exact ⟨v₃, at₃, format, format'⟩
  · exact ⟨v₄, at₄, grad, grad'⟩
  · exact ⟨v₅, at₅, pinned, pinned'⟩
  · exact absurd below (by omega)

theorem safeTensor (T : Torch) (strVec : List Bytes) : T.SafeTensor strVec := by
  unfold SafeTensor restoreTensor
  cases strVec with
  | nil =>
    constructor
    · rintro ⟨k, same⟩
      cases same
    · intro t returned
      cases returned
  | cons str rest =>
    have some : 0 < (str :: rest).length := Nat.succ_pos _
    rw [if_pos some]
    constructor
    · simp only [overrun_bind, overrun_index, not_overrun_call]
      simp
    · intro t returned
      simp only [bind_eq_ok, index_eq_ok, call_eq_ok, List.getElem?_cons_zero,
        Option.some.injEq] at returned
      rcases returned with ⟨_, rfl, v, load, tensor⟩
      exact ⟨str, rest, v, rfl, load, tensor⟩

end Torch

open Torch in
/-- `restore(TensorOptionsKind)` is safe for exactly the vectors that are not truncated,
and `restore(TensorKind)` is safe for all. -/
theorem restore_safe_iff (T : Torch) (strVec : List Bytes) :
    (T.SafeOptions strVec ↔ ¬T.Truncated strVec) ∧ T.SafeTensor strVec := by
  refine ⟨⟨fun safe truncated => safe.1 (overrun_iff_truncated.mpr truncated), fun whole => ?_⟩,
    safeTensor T strVec⟩
  refine ⟨fun overrun => whole (overrun_iff_truncated.mp overrun), fun o returned => ?_⟩
  have decodes := decodesAt_of_restoreOptions returned
  refine ⟨?_, decodes⟩
  rcases decodes 5 (by decide) with ⟨str, _, last, _⟩
  exact (List.getElem?_eq_some_iff.mp last).1

/-- No string at all: position 0 of an empty vector is read. -/
theorem unsafe_of_empty :
    smallTorch.restoreOptions [] = .error (.outOfRange 0) ∧ ¬smallTorch.SafeOptions [] :=
  ⟨rfl, fun safe => safe.1 ⟨0, rfl⟩⟩

end TorchTest.Serialize
