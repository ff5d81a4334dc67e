import Mathlib.Logic.Basic

/-!
# `serialize.h` over an abstract Torch

`c10/serialize.h` writes a value as a vector of pickled strings and reads it
back. The library it rests on is a parameter: a `Torch` has the types and the
functions of `c10`, `ATen` and `torch` that the header calls. Library functions
that may throw return `Except String`, the string being what the exception says.

A `TensorOptions` has six fields, each set or unset. `dtype()`, `device()` and
`layout()` fall back on a global default, which is an argument here (`Defaults`),
as it may have changed between saving and loading.
-/

namespace TorchTest.Serialize

/-- `std::vector<char>` and `std::string`. -/
abbrev Bytes := List UInt8

/-- What `serialize.h` uses of the library. -/
structure Torch where
  TypeMeta : Type
  ScalarType : Type
  Device : Type
  Layout : Type
  MemoryFormat : Type
  Tensor : Type
  IValue : Type
  /-- `c10::typeMetaToScalarType` -/
  typeMetaToScalarType : TypeMeta → Except String ScalarType
  /-- the conversion in `TensorOptions::dtype(ScalarType)` -/
  scalarTypeToTypeMeta : ScalarType → TypeMeta
  /-- the constructors of `IValue` -/
  ofScalarType : ScalarType → IValue
  ofDevice : Device → IValue
  ofLayout : Layout → IValue
  ofMemoryFormat : Option MemoryFormat → IValue
  ofBool : Option Bool → IValue
  ofTensor : Tensor → IValue
  /-- the conversions of `IValue` -/
  toScalarType : IValue → Except String ScalarType
  toDevice : IValue → Except String Device
  toLayout : IValue → Except String Layout
  toMemoryFormat : IValue → Except String (Option MemoryFormat)
  toBool : IValue → Except String (Option Bool)
  toTensor : IValue → Except String Tensor
  /-- `torch::pickle_save` and `torch::pickle_load` -/
  pickleSave : IValue → Bytes
  pickleLoad : Bytes → Except String IValue

/-- Why a function of `serialize.h` does not return: an exception, or an index
past the end of a vector, which `operator[]` does not check. -/
inductive Failure
  | thrown (what : String)
  | outOfRange (index : Nat)
  deriving DecidableEq, Repr

/-- A library function is called; its exception is passed on. -/
def call {β : Type} (r : Except String β) : Except Failure β := r.mapError .thrown

@[simp] theorem call_ok {β : Type} (v : β) : call (.ok v) = .ok v := rfl

theorem call_eq_ok {β : Type} {r : Except String β} {v : β} : call r = .ok v ↔ r = .ok v := by
  cases r with
  | error e =>
    constructor
    · intro same
      cases same
    · intro same
      cases same
  | ok u => simp

/-- `vec[index]`. -/
def index {β : Type} (vec : List β) (k : Nat) : Except Failure β :=
  match vec[k]? with
  | some v => .ok v
  | none => .error (.outOfRange k)

theorem index_eq_ok {β : Type} {vec : List β} {k : Nat} {v : β} :
    index vec k = .ok v ↔ vec[k]? = some v := by
  unfold index
  cases vec[k]? with
  | none => simp
  | some u => simp

namespace Torch

/-- `at::TensorOptions`. -/
@[ext] structure TensorOptions (T : Torch) where
  dtypeOpt : Option T.TypeMeta
  deviceOpt : Option T.Device
  layoutOpt : Option T.Layout
  memoryFormatOpt : Option T.MemoryFormat
  requiresGradOpt : Option Bool
  pinnedMemoryOpt : Option Bool

/-- The global defaults at some time. -/
structure Defaults (T : Torch) where
  dtype : T.TypeMeta
  device : T.Device
  layout : T.Layout

variable {T : Torch}

/-- `TensorOptions::dtype()`. -/
def TensorOptions.dtype (o : T.TensorOptions) (g : T.Defaults) : T.TypeMeta :=
  o.dtypeOpt.getD g.dtype

/-- `TensorOptions::device()`. -/
def TensorOptions.device (o : T.TensorOptions) (g : T.Defaults) : T.Device :=
  o.deviceOpt.getD g.device

/-- `TensorOptions::layout()`. -/
def TensorOptions.layout (o : T.TensorOptions) (g : T.Defaults) : T.Layout :=
  o.layoutOpt.getD g.layout

/-- `serialize_to_vec_string` of anything that is an `IValue`. -/
def serializeToVecString (T : Torch) (data : T.IValue) : List Bytes := [T.pickleSave data]

/-- `serialize_to_vec_string<at::TensorOptions>`. -/
def serializeOptions (T : Torch) (g : T.Defaults) (options : T.TensorOptions) :
    Except Failure (List Bytes) := do
  let dtype ← call (T.typeMetaToScalarType (options.dtype g))
  let ivalueVec := [T.ofScalarType dtype, T.ofDevice (options.device g),
    T.ofLayout (options.layout g), T.ofMemoryFormat options.memoryFormatOpt,
    T.ofBool options.requiresGradOpt, T.ofBool options.pinnedMemoryOpt]
  return ivalueVec.map T.pickleSave

/-- `restore(str_vec, TensorOptionsKind)`: every string is unpickled, then six
positions are read without a look at the length. The arguments of the chained calls
are evaluated from the first to the last, as GCC does also before C++17. -/
def restoreOptions (T : Torch) (strVec : List Bytes) : Except Failure T.TensorOptions := do
  let ivalueVec ← strVec.mapM fun item => call (T.pickleLoad item)
  let dtype ← call (T.toScalarType (← index ivalueVec 0))
  let device ← call (T.toDevice (← index ivalueVec 1))
  let layout ← call (T.toLayout (← index ivalueVec 2))
  let memoryFormat ← call (T.toMemoryFormat (← index ivalueVec 3))
  let requiresGrad ← call (T.toBool (← index ivalueVec 4))
  let pinnedMemory ← call (T.toBool (← index ivalueVec 5))
  return {
    dtypeOpt := some (T.scalarTypeToTypeMeta dtype)
    deviceOpt := some device
    layoutOpt := some layout
    memoryFormatOpt := memoryFormat
    requiresGradOpt := requiresGrad
    pinnedMemoryOpt := pinnedMemory }

/-- `restore(str_vec, TensorKind)`, which checks the length. -/
def restoreTensor (T : Torch) (strVec : List Bytes) : Except Failure T.Tensor :=
  if 0 < strVec.length then do
    let ivalue ← call (T.pickleLoad (← index strVec 0))
    call (T.toTensor ivalue)
  else .error (.thrown "input str vector is empty")

end Torch

end TorchTest.Serialize
