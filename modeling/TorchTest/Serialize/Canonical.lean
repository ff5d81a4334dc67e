import TorchTest.Serialize.Untrusted

/-!
# The canonical form of restored options

Many vectors restore to the same options: a value may have more than one pickle, and the
strings behind the sixth are unpickled and forgotten. But whatever options were restored
from, their `dtype`, `device` and `layout` are set. So writing them gives six strings that
the defaults have no part in, and these restore to the same options, also with other
strings behind them as long as those unpickle (`canonical_of_restored`).
-/

namespace TorchTest.Serialize

namespace Torch

variable {T : Torch} {strVec : List Bytes} {o : T.TensorOptions}

/-- Restored options have the three fields set that fall back on a default, the first to a
scalar type. -/
theorem set_of_restoreOptions (restored : T.restoreOptions strVec = .ok o) :
    ∃ t m d l, T.scalarTypeToTypeMeta t = m ∧ o.dtypeOpt = some m ∧ o.deviceOpt = some d ∧
      o.layoutOpt = some l := by
  simp only [restoreOptions, bind_eq_ok] at restored
  rcases restored with ⟨_, _, _, _, dtype, _, _, _, device, _, _, _, layout, _, _, _, _, _, _, _, _,
    _, _, _, _, _, same⟩
  cases same
  exact ⟨_, _, _, _, rfl, rfl, rfl, rfl⟩

/-- Options with the three fields set are written the same under all defaults. -/
theorem serializeOptions_congr {m : T.TypeMeta} {d : T.Device} {l : T.Layout}
    (dtype : o.dtypeOpt = some m) (device : o.deviceOpt = some d) (layout : o.layoutOpt = some l)
    (g g' : T.Defaults) : T.serializeOptions g o = T.serializeOptions g' o := by
  simp only [serializeOptions, TensorOptions.dtype, TensorOptions.device, TensorOptions.layout,
    dtype, device, layout, Option.getD_some]

/-- A vector restores only if every string of it unpickles. -/
theorem loads_of_restoreOptions (restored : T.restoreOptions strVec = .ok o) {str : Bytes}
    (member : str ∈ strVec) : ∃ v, T.pickleLoad str = .ok v := by
  rw [restoreOptions, bind_eq_ok] at restored
  rcases restored with ⟨ivalueVec, loads, _⟩
  have among := List.mem_map_of_mem (f := T.pickleLoad) member
  rw [mapM_call.mp loads] at among
  rcases List.mem_map.mp among with ⟨v, _, same⟩
  exact ⟨v, same.symm⟩

/-- Options as they are written, with readable strings behind them, are restored with the
three fields set. -/
theorem restoreOptions_append (lawful : T.Lawful) {g : T.Defaults} {o : T.TensorOptions}
    (scalar : T.IsScalar (o.dtype g)) {more : List Bytes}
    (readable : ∀ str ∈ more, ∃ v, T.pickleLoad str = .ok v) :
    ∃ w, T.serializeOptions g o = .ok w ∧ w.length = 6 ∧
      T.restoreOptions (w ++ more) = .ok (o.materialize g) := by
  rcases serializeOptions_eq scalar with ⟨t, back, written⟩
  rcases exists_loads readable with ⟨rest, loads⟩
  refine ⟨_, written, rfl, ?_⟩
  have used : ∀ v ∈ [T.ofScalarType t, T.ofDevice (o.device g), T.ofLayout (o.layout g),
      T.ofMemoryFormat o.memoryFormatOpt, T.ofBool o.requiresGradOpt, T.ofBool o.pinnedMemoryOpt],
      T.Used v := by
    simp only [List.mem_cons, List.not_mem_nil, or_false, forall_eq_or_imp, forall_eq]
    exact ⟨.scalarType _, .device _, .layout _, .memoryFormat _, .bool _, .bool _⟩
  have all := mapM_call.mp (mapM_pickleLoad lawful used)
  have both := congrArg₂ (· ++ ·) all loads
  rw [← List.map_append, ← List.map_append] at both
  rw [restoreOptions, mapM_call.mpr both]
  simp only [index, call_ok, List.cons_append, List.getElem?_cons_zero, List.getElem?_cons_succ,
    bind, Except.bind, lawful.scalarType, lawful.device, lawful.layout, lawful.memoryFormat,
    lawful.bool, back]
  rfl

end Torch

open Torch in
/-- Restored options are written as six strings, the same under all defaults; and these,
with any others behind them, restore to the same options exactly when the others
unpickle. -/
theorem canonical_of_restored {T : Torch} (lawful : T.Lawful) {strVec : List Bytes}
    {o : T.TensorOptions} (restored : T.restoreOptions strVec = .ok o) :
    ∃ w, w.length = 6 ∧ (∀ g, T.serializeOptions g o = .ok w) ∧
      ∀ more, T.restoreOptions (w ++ more) = .ok o ↔ ∀ str ∈ more, ∃ v, T.pickleLoad str = .ok v := by
  rcases set_of_restoreOptions restored with ⟨t, m, d, l, made, dtype, device, layout⟩
  have scalar : ∀ g, T.IsScalar (o.dtype g) := by
    intro g
    rw [TensorOptions.dtype, dtype, Option.getD_some, ← made]
    exact lawful.typeMeta t
  -- the fields of the options serve as defaults
  have nothing : ∀ str ∈ ([] : List Bytes), ∃ v, T.pickleLoad str = .ok v :=
    fun str member => absurd member List.not_mem_nil
  rcases restoreOptions_append lawful (scalar ⟨m, d, l⟩) nothing with ⟨w, written, six, _⟩
  refine ⟨w, six, fun g => ?_, fun more => ⟨fun again str member => ?_, fun readable => ?_⟩⟩
  · rw [serializeOptions_congr dtype device layout g ⟨m, d, l⟩, written]
  · exact loads_of_restoreOptions again (List.mem_append_right w member)
  · rcases restoreOptions_append lawful (scalar ⟨m, d, l⟩) readable with ⟨w', written', _, whole⟩
    cases written.symm.trans written'
    have set : o.materialize ⟨m, d, l⟩ = o :=
      (o.materialize_eq_iff _).mpr (by simp [dtype, device, layout])
    rw [whole, set]

/-- Six strings with a seventh that is dropped, from the small library. -/
theorem canonical_of_restored_small :
    let strVec : List Bytes := [[128, 2, 75, 6, 46], [128, 2, 99, 0, 255, 46], [128, 2, 75, 0, 46],
      [128, 2, 78, 46], [128, 2, 136, 46], [128, 2, 78, 46], [128, 2, 75, 1, 46]]
    ∃ o w, smallTorch.restoreOptions strVec = .ok o ∧
      smallTorch.serializeOptions smallDefaults o = .ok w ∧ w.length = 6 ∧
      smallTorch.restoreOptions w = .ok o ∧ smallTorch.restoreOptions (w ++ [[]]) ≠ .ok o := by
  intro strVec
  have restored : smallTorch.restoreOptions strVec =
      .ok ⟨some (6 : UInt8), some ((0 : UInt8), (255 : UInt8)), some (0 : UInt8), none, some true,
        none⟩ := rfl
  rcases canonical_of_restored lawful_smallTorch restored with ⟨w, six, written, again⟩
  refine ⟨_, w, restored, written smallDefaults, six, ?_, fun restored => ?_⟩
  · have whole := (again []).mpr nofun
    rwa [List.append_nil] at whole
  · rcases (again [[]]).mp restored [] (List.mem_singleton_self _) with ⟨v, load⟩
    cases load

end TorchTest.Serialize
