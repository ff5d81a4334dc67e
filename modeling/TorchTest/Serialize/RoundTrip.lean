import TorchTest.Serialize.Source

/-!
# Reading options back

Three of the six fields are written through `memory_format_opt()` and its like,
and come back as they were, unset ones included. The other three are written
through `dtype()`, `device()` and `layout()`: what comes back is set, to the value
that the field had, or stood for, at the time of saving (`materialize`). So the
options come back unchanged exactly when the three were set, and the effective
values, which the tests compare, come back whatever the defaults are by then
(`restore_serialize`).
-/

namespace TorchTest.Serialize

namespace Torch

/-- The values that `serialize.h` pickles. -/
inductive Used (T : Torch) : T.IValue → Prop
  | scalarType (t : T.ScalarType) : Used T (T.ofScalarType t)
  | device (d : T.Device) : Used T (T.ofDevice d)
  | layout (l : T.Layout) : Used T (T.ofLayout l)
  | memoryFormat (f : Option T.MemoryFormat) : Used T (T.ofMemoryFormat f)
  | bool (b : Option Bool) : Used T (T.ofBool b)
  | tensor (t : T.Tensor) : Used T (T.ofTensor t)

/-- The `TypeMeta` of a scalar type, not of some other type: it converts to a scalar type and
back. -/
def IsScalar (T : Torch) (m : T.TypeMeta) : Prop :=
  ∃ t, T.typeMetaToScalarType m = .ok t ∧ T.scalarTypeToTypeMeta t = m

/-- What the library documents: a pickle reads back, a conversion of `IValue`
undoes its constructor, and the `TypeMeta` made of a scalar type converts back. -/
structure Lawful (T : Torch) : Prop where
  load_save : ∀ v, T.Used v → T.pickleLoad (T.pickleSave v) = .ok v
  typeMeta : ∀ t, T.IsScalar (T.scalarTypeToTypeMeta t)
  scalarType : ∀ t, T.toScalarType (T.ofScalarType t) = .ok t
  device : ∀ d, T.toDevice (T.ofDevice d) = .ok d
  layout : ∀ l, T.toLayout (T.ofLayout l) = .ok l
  memoryFormat : ∀ f, T.toMemoryFormat (T.ofMemoryFormat f) = .ok f
  bool : ∀ b, T.toBool (T.ofBool b) = .ok b
  tensor : ∀ t, T.toTensor (T.ofTensor t) = .ok t

variable {T : Torch}

/-- The options with `dtype`, `device` and `layout` set to what they stand for. -/
def TensorOptions.materialize (o : T.TensorOptions) (g : T.Defaults) : T.TensorOptions :=
  { o with
    dtypeOpt := some (o.dtype g)
    deviceOpt := some (o.device g)
    layoutOpt := some (o.layout g) }

/-- Setting the three fields changes nothing exactly when they are set. -/
theorem TensorOptions.materialize_eq_iff (o : T.TensorOptions) (g : T.Defaults) :
    o.materialize g = o ↔ o.dtypeOpt.isSome ∧ o.deviceOpt.isSome ∧ o.layoutOpt.isSome := by
  constructor
  · intro same
    rw [← same]
    exact ⟨rfl, rfl, rfl⟩
  · rintro ⟨dtype, device, layout⟩
    obtain ⟨m, hasDtype⟩ := Option.isSome_iff_exists.mp dtype
    obtain ⟨d, hasDevice⟩ := Option.isSome_iff_exists.mp device
    obtain ⟨l, hasLayout⟩ := Option.isSome_iff_exists.mp layout
    refine TensorOptions.ext ?_ ?_ ?_ rfl rfl rfl
    · simp only [materialize, TensorOptions.dtype, hasDtype, Option.getD_some]
    · simp only [materialize, TensorOptions.device, hasDevice, Option.getD_some]
    · simp only [materialize, TensorOptions.layout, hasLayout, Option.getD_some]

/-- Later defaults do not reach the three fields any more. -/
theorem TensorOptions.materialize_effective (o : T.TensorOptions) (g g' : T.Defaults) :
    (o.materialize g).dtype g' = o.dtype g ∧ (o.materialize g).device g' = o.device g ∧
      (o.materialize g).layout g' = o.layout g :=
  ⟨rfl, rfl, rfl⟩

/-- The six strings that are written. -/
theorem serializeOptions_eq {g : T.Defaults} {o : T.TensorOptions}
    (scalar : T.IsScalar (o.dtype g)) :
    ∃ t, T.scalarTypeToTypeMeta t = o.dtype g ∧
      T.serializeOptions g o = .ok ([T.ofScalarType t, T.ofDevice (o.device g),
        T.ofLayout (o.layout g), T.ofMemoryFormat o.memoryFormatOpt, T.ofBool o.requiresGradOpt,
        T.ofBool o.pinnedMemoryOpt].map T.pickleSave) := by
  obtain ⟨t, scalar, back⟩ := scalar
  refine ⟨t, back, ?_⟩
  rw [serializeOptions, scalar]
  rfl

/-- Unpickling what was pickled gives the values. -/
theorem mapM_pickleLoad (lawful : T.Lawful) {vs : List T.IValue} (used : ∀ v ∈ vs, T.Used v) :
    (vs.map T.pickleSave).mapM (fun item => call (T.pickleLoad item)) = .ok vs := by
  induction vs with
  | nil => rfl
  | cons v vs ih =>
    rw [List.map_cons, List.mapM_cons, lawful.load_save v (used v List.mem_cons_self),
      ih fun u member => used u (List.mem_cons_of_mem _ member)]
    rfl

/-- A tensor comes back from its one string. -/
theorem restoreTensor_serialize (lawful : T.Lawful) (t : T.Tensor) :
    T.restoreTensor (T.serializeToVecString (T.ofTensor t)) = .ok t := by
  rw [restoreTensor, serializeToVecString, List.length_singleton,
    if_pos Nat.zero_lt_one]
  simp only [index, List.getElem?_cons_zero, bind, Except.bind, lawful.load_save _ (.tensor t),
    call_ok, lawful.tensor]

end Torch

open Torch in
/-- Options of a scalar type, written and read back, come back with `dtype`, `device` and
`layout` set to what they stood for at the time of saving and the other three fields as they
were: unchanged exactly when the three were set, and with the same effective
values under any later defaults. -/
theorem restore_serialize {T : Torch} (lawful : T.Lawful) (g : T.Defaults)
    (o : T.TensorOptions) (scalar : T.IsScalar (o.dtype g)) :
    ∃ o', (T.serializeOptions g o).bind T.restoreOptions = .ok o' ∧
      o'.dtypeOpt = some (o.dtype g) ∧ o'.deviceOpt = some (o.device g) ∧
      o'.layoutOpt = some (o.layout g) ∧ o'.memoryFormatOpt = o.memoryFormatOpt ∧
      o'.requiresGradOpt = o.requiresGradOpt ∧ o'.pinnedMemoryOpt = o.pinnedMemoryOpt ∧
      (o' = o ↔ o.dtypeOpt.isSome ∧ o.deviceOpt.isSome ∧ o.layoutOpt.isSome) ∧
      ∀ g', o'.dtype g' = o.dtype g ∧ o'.device g' = o.device g ∧ o'.layout g' = o.layout g := by
  refine ⟨o.materialize g, ?_, rfl, rfl, rfl, rfl, rfl, rfl, o.materialize_eq_iff g,
    o.materialize_effective g⟩
  obtain ⟨t, back, written⟩ := serializeOptions_eq scalar
  rw [written, Except.bind, restoreOptions, mapM_pickleLoad lawful]
  · simp only [index, call_ok, List.getElem?_cons_zero, List.getElem?_cons_succ, bind, Except.bind,
      lawful.scalarType, lawful.device, lawful.layout, lawful.memoryFormat, lawful.bool, back]
    rfl
  · intro v member
    simp only [List.mem_cons, List.not_mem_nil, or_false] at member
    rcases member with rfl | rfl | rfl | rfl | rfl | rfl
    · exact .scalarType _
    · exact .device _
    · exact .layout _
    · exact .memoryFormat _
    · exact .bool _
    · exact .bool _

/-! ## A small library -/

/-- The values that the small library pickles. -/
inductive Value
  | none
  | int (n : UInt8)
  | bool (b : Bool)
  | device (type index : UInt8)
  | tensor (data : Bytes)
  deriving DecidableEq

/-- One opcode and its operands, between the protocol header and the stop. -/
def Value.save : Value → Bytes
  | .none => [128, 2, 78, 46]
  | .int n => [128, 2, 75, n, 46]
  | .bool true => [128, 2, 136, 46]
  | .bool false => [128, 2, 137, 46]
  | .device type index => [128, 2, 99, type, index, 46]
  | .tensor data => 128 :: 2 :: 116 :: data

/-- The inverse of `save`; anything else throws. -/
def Value.load : Bytes → Except String Value
  | [128, 2, 78, 46] => .ok .none
  | [128, 2, 75, n, 46] => .ok (.int n)
  | [128, 2, 136, 46] => .ok (.bool true)
  | [128, 2, 137, 46] => .ok (.bool false)
  | [128, 2, 99, type, index, 46] => .ok (.device type index)
  | 128 :: 2 :: 116 :: data => .ok (.tensor data)
  | _ => .error "unknown opcode"

theorem Value.load_save (v : Value) : load v.save = .ok v := by
  cases v with
  | bool b => cases b <;> rfl
  | _ => rfl

/-- A library whose enumerations are small integers and whose devices are a type
and an index, as in the real one. -/
def smallTorch : Torch where
  TypeMeta := UInt8
  ScalarType := UInt8
  Device := UInt8 × UInt8
  Layout := UInt8
  MemoryFormat := UInt8
  Tensor := Bytes
  IValue := Value
  typeMetaToScalarType := .ok
  scalarTypeToTypeMeta := id
  ofScalarType := .int
  ofDevice d := .device d.1 d.2
  ofLayout := .int
  ofMemoryFormat f := f.elim .none .int
  ofBool b := b.elim .none .bool
  ofTensor := .tensor
  toScalarType
    | .int n => .ok n
    | _ => .error "not an int"
  toDevice
    | .device type index => .ok (type, index)
    | _ => .error "not a device"
  toLayout
    | .int n => .ok n
    | _ => .error "not an int"
  toMemoryFormat
    | .none => .ok none
    | .int n => .ok (some n)
    | _ => .error "not an int"
  toBool
    | .none => .ok none
    | .bool b => .ok (some b)
    | _ => .error "not a bool"
  toTensor
    | .tensor data => .ok data
    | _ => .error "not a tensor"
  pickleSave := Value.save
  pickleLoad := Value.load

theorem lawful_smallTorch : smallTorch.Lawful where
  load_save v _ := Value.load_save v
  typeMeta t := ⟨t, rfl, rfl⟩
  scalarType _ := rfl
  device _ := rfl
  layout _ := rfl
  memoryFormat f := by cases f <;> rfl
  bool b := by cases b <;> rfl
  tensor _ := rfl

/-- `float`, the CPU without an index, and strided. -/
def smallDefaults : smallTorch.Defaults := ⟨(6 : UInt8), ((0 : UInt8), (255 : UInt8)), (0 : UInt8)⟩

/-- Options with `requires_grad` set and nothing else. -/
def gradOnly : smallTorch.TensorOptions := ⟨none, none, none, none, some true, none⟩

/-- The default `dtype` is written down with the options. -/
theorem restore_serialize_small :
    ∃ o', (smallTorch.serializeOptions smallDefaults gradOnly).bind smallTorch.restoreOptions =
        .ok o' ∧
      o'.dtypeOpt = some (6 : UInt8) ∧ o'.requiresGradOpt = some true ∧
      o'.pinnedMemoryOpt = none := by
  obtain ⟨o', restored, dtype, _, _, _, grad, pinned, _⟩ :=
    restore_serialize lawful_smallTorch smallDefaults gradOnly ⟨(6 : UInt8), rfl, rfl⟩
  exact ⟨o', restored, dtype, grad, pinned⟩

/-- Options that leave `dtype` unset come back with it set. -/
theorem restored_with_dtype :
    ∃ o', (smallTorch.serializeOptions smallDefaults gradOnly).bind smallTorch.restoreOptions =
        .ok o' ∧ gradOnly.dtypeOpt = none ∧ o'.dtypeOpt ≠ none ∧ o' ≠ gradOnly := by
  refine ⟨_, rfl, rfl, Option.some_ne_none _, fun same => ?_⟩
  exact Option.some_ne_none _ (congrArg Torch.TensorOptions.dtypeOpt same)

end TorchTest.Serialize
