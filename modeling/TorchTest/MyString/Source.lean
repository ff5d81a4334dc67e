import TorchTest.Library.CHeap
import TorchTest.Library.Runs
import TorchTest.Machine

/-!
# `MyString`

The string class of `c++/test_allocator.cpp`: one member, `ptr_`, which points to a
buffer from `malloc`. A constructor and `operator=` give the new `ptr_` and the heap; a
call gets the address that the system answers should it call `malloc`, which grants
every request. The logging is left out.

`operator=` returns `*this` where it finds that both objects have one buffer. Its other
exit is the end of the function, with no `return`. To get there is undefined whether or not
the value is used, so it is a fault here, as a bad access is.

A `World ι` holds an object for some of the names in `ι`, in one memory. The caller may
pass a constructor any NUL-terminated string it can read, and between calls everything
outside the live buffers may change.
-/

namespace TorchTest.MyString

/-- `ptr_ = malloc(1); *ptr_ = '\\0';` -/
def mallocEmpty (answer : Nat) (h : CHeap) : Except Fault (Nat × CHeap) := do
  let (ptr, h) ← h.malloc 1 answer
  let h ← h.writeByte ptr 0
  return (ptr, h)

/-- `ptr_ = malloc(strlen(src) + 1); strcpy(ptr_, src);` -/
def mallocCopy (src answer : Nat) (h : CHeap) : Except Fault (Nat × CHeap) := do
  let length ← h.strlen src
  let (ptr, h) ← h.malloc (SizeT.add length 1) answer
  let h ← h.strcpy ptr src
  return (ptr, h)

/-- `MyString()`. -/
def ctor (answer : Nat) (h : CHeap) : Except Fault (Nat × CHeap) := mallocEmpty answer h

/-- `MyString(const char* ptr)`. -/
def ctorChars (ptr answer : Nat) (h : CHeap) : Except Fault (Nat × CHeap) :=
  if ptr ≠ 0 then mallocCopy ptr answer h else mallocEmpty answer h

/-- `MyString(const MyString& other)`, where `other.ptr_` is `other`. -/
def ctorCopy (other answer : Nat) (h : CHeap) : Except Fault (Nat × CHeap) :=
  if other ≠ 0 then mallocCopy other answer h else mallocEmpty answer h

/-- `operator=(const MyString& other)`: the new `ptr_` and the heap, where `*this` is
returned. `other.ptr_` is not compared with null. -/
def assign (ptr other answer : Nat) (h : CHeap) : Except Fault (Nat × CHeap) :=
  if other = ptr then .ok (ptr, h)
  else do
    let h ← h.free ptr
    let _ ← mallocCopy other answer h
    throw .noReturn

/-- `~MyString()`. -/
def dtor (ptr : Nat) (h : CHeap) : Except Fault CHeap :=
  if ptr ≠ 0 then h.free ptr else .ok h

/-- A string that the caller has: its address and its bytes. -/
structure Chars where
  ptr : Nat
  bytes : List UInt8
  deriving DecidableEq

/-- An operation on the object `x`, or a change of a byte that is in no live buffer. -/
inductive Event (ι : Type)
  | default (x : ι) (answer : Nat)
  | construct (x : ι) (chars : Option Chars) (answer : Nat)
  | copy (x other : ι) (answer : Nat)
  | assign (x other : ι) (answer : Nat)
  | destroy (x : ι)
  | write (a : Nat) (v : UInt8)
  deriving DecidableEq

/-- What the caller sees: the object that an assignment yields, or a fault, behind which
nothing is defined. -/
inductive Result (ι : Type)
  | done
  | yielded (x : ι)
  | faulted (f : Fault)
  | noObject
  deriving DecidableEq

/-- The heap, and `ptr_` of every object there is. -/
structure World (ι : Type) where
  heap : CHeap
  objects : ι → Option Nat

namespace World

variable {ι : Type} [DecidableEq ι]

/-- No objects. -/
def init (mem : Mem) (outside : List Interval) : World ι :=
  { heap := CHeap.init mem addressSpace outside, objects := fun _ => none }

/-- A constructor made the object `x`, or went wrong. -/
def constructed (w : World ι) (x : ι) : Except Fault (Nat × CHeap) → World ι × Result ι
  | .ok (ptr, heap) => ({ heap, objects := Function.update w.objects x (some ptr) }, .done)
  | .error f => (w, .faulted f)

/-- One event. -/
def step (w : World ι) : Event ι → World ι × Result ι
  | .default x answer => w.constructed x (ctor answer w.heap)
  | .construct x none answer => w.constructed x (ctorChars 0 answer w.heap)
  | .construct x (some chars) answer => w.constructed x (ctorChars chars.ptr answer w.heap)
  | .copy x other answer =>
      match w.objects other with
      | some ptr => w.constructed x (ctorCopy ptr answer w.heap)
      | none => (w, .noObject)
  | .assign x other answer =>
      match w.objects x, w.objects other with
      | some ptr, some source =>
          match assign ptr source answer w.heap with
          | .ok (ptr, heap) =>
              ({ heap, objects := Function.update w.objects x (some ptr) }, .yielded x)
          | .error f => (w, .faulted f)
      | _, _ => (w, .noObject)
  | .destroy x =>
      match w.objects x with
      | some ptr =>
          match dtor ptr w.heap with
          | .ok heap => ({ heap, objects := Function.update w.objects x none }, .done)
          | .error f => (w, .faulted f)
      | none => (w, .noObject)
  | .write a v => ({ w with heap := { w.heap with mem := w.heap.mem.setByte a v } }, .done)

/-- What the callers promise: an object is constructed before it is used and once in
its life, and a string that is passed is there to be read. -/
def ClientOk (w : World ι) : Event ι → Prop
  | .default x _ => w.objects x = none
  | .construct x none _ => w.objects x = none
  | .construct x (some chars) _ => w.objects x = none ∧ w.heap.StringAt chars.ptr chars.bytes
  | .copy x other _ => w.objects x = none ∧ w.objects other ≠ none
  | .assign x other _ => w.objects x ≠ none ∧ w.objects other ≠ none
  | .destroy x => w.objects x ≠ none
  | .write a _ => ¬w.heap.Writable a

/-- An event that the caller is entitled to, with an answer that `malloc` can give. -/
def Valid (w : World ι) (e : Event ι) : Prop :=
  w.ClientOk e ∧ (w.step e).2 ≠ .faulted .badAnswer

instance (w : World ι) : ∀ e, Decidable (w.ClientOk e)
  | .default x _ => inferInstanceAs (Decidable (w.objects x = none))
  | .construct x none _ => inferInstanceAs (Decidable (w.objects x = none))
  | .construct x (some chars) _ =>
      inferInstanceAs (Decidable (w.objects x = none ∧ w.heap.StringAt chars.ptr chars.bytes))
  | .copy x other _ => inferInstanceAs (Decidable (w.objects x = none ∧ w.objects other ≠ none))
  | .assign x other _ => inferInstanceAs (Decidable (w.objects x ≠ none ∧ w.objects other ≠ none))
  | .destroy x => inferInstanceAs (Decidable (w.objects x ≠ none))
  | .write a _ => inferInstanceAs (Decidable (¬w.heap.Writable a))

instance (w : World ι) (e : Event ι) : Decidable (w.Valid e) :=
  inferInstanceAs (Decidable (_ ∧ _))

end World

/-! ## Value semantics -/

/-- The string that each object stands for. -/
abbrev Values (ι : Type) := ι → Option (List UInt8)

variable {ι : Type} [DecidableEq ι]

/-- What an event does to the values of the objects, memory apart. -/
def Values.step (V : Values ι) : Event ι → Values ι
  | .default x _ => Function.update V x (some [])
  | .construct x none _ => Function.update V x (some [])
  | .construct x (some chars) _ => Function.update V x (some chars.bytes)
  | .copy x other _ => Function.update V x (V other)
  | .assign x other _ => Function.update V x (V other)
  | .destroy x => Function.update V x none
  | .write _ _ => V

end TorchTest.MyString
