import Mathlib.Data.List.Perm.Basic
import TorchTest.Library.Interval
import TorchTest.Library.Memory

/-!
# The heap of a C program, and its strings

`malloc` gets the address that the system answers, and numbers the buffers it
returns. A buffer is live until it is freed. Every access is checked: a byte may be
read in a live buffer or in the program's other memory (`outside`), and written in a
live buffer, or there is a `Fault`; so is a `free` of anything but the start of a live
buffer, and an answer that `malloc` could not give.

* `CHeap.Wf` is what an undisturbed heap looks like: the live buffers are apart, and
  every number given out is that of one live buffer or was freed once. `Wf.malloc` and
  `Wf.free` keep it;
* `HoldsString` says which string a NUL ends; `Wf.strlen` and `Wf.strcpy` are what the
  two functions do with one.
-/

namespace TorchTest

/-- Memory that `malloc` returned, with its number. -/
structure Buffer where
  id : Nat
  start : Nat
  length : Nat
  deriving DecidableEq

namespace Buffer

/-- The bytes of the buffer. -/
def span (b : Buffer) : Interval := ⟨b.start, b.length⟩

end Buffer

/-- Why the program goes wrong; `badAnswer` is the system's fault, `outOfFuel` a loop that
runs longer than memory is large, and `noReturn` the end of a function that has to return a
value. -/
inductive Fault
  | badAnswer
  | badFree (p : Nat)
  | badRead (a : Nat)
  | badWrite (a : Nat)
  | outOfFuel
  | noReturn
  deriving DecidableEq, Repr

/-- Memory below `limit`, the part of it that is not `malloc`'s, the live buffers, the
numbers of the freed ones, newest first, and how many there have been. -/
structure CHeap where
  mem : Mem
  limit : Nat
  outside : List Interval
  live : List Buffer
  freed : List Nat
  count : Nat

namespace CHeap

/-- No buffers yet. -/
def init (mem : Mem) (limit : Nat) (outside : List Interval) : CHeap :=
  { mem, limit, outside, live := [], freed := [], count := 0 }

/-- The address lies in a live buffer. -/
def Writable (h : CHeap) (a : Nat) : Prop := ∃ b ∈ h.live, a ∈ b.span

/-- The address lies in a live buffer or in the program's other memory. -/
def Readable (h : CHeap) (a : Nat) : Prop := h.Writable a ∨ ∃ I ∈ h.outside, a ∈ I

/-- What `malloc` may answer: memory that is not null, not past the last address, and
apart from the live buffers and the program's other memory. -/
def Fresh (h : CHeap) (size answer : Nat) : Prop :=
  0 < answer ∧ answer + size < h.limit ∧
    (∀ b ∈ h.live, Interval.Apart ⟨answer, size⟩ b.span) ∧
    ∀ I ∈ h.outside, Interval.Apart ⟨answer, size⟩ I

instance (h : CHeap) (a : Nat) : Decidable (h.Writable a) :=
  inferInstanceAs (Decidable (∃ b ∈ h.live, a ∈ b.span))

instance (h : CHeap) (a : Nat) : Decidable (h.Readable a) :=
  inferInstanceAs (Decidable (h.Writable a ∨ ∃ I ∈ h.outside, a ∈ I))

instance (h : CHeap) (size answer : Nat) : Decidable (h.Fresh size answer) :=
  inferInstanceAs (Decidable (_ ∧ _ ∧ _ ∧ _))

/-- One more live buffer. -/
def allocated (h : CHeap) (size answer : Nat) : CHeap :=
  { h with live := ⟨h.count, answer, size⟩ :: h.live, count := h.count + 1 }

/-- One live buffer less. -/
def released (h : CHeap) (b : Buffer) : CHeap :=
  { h with live := h.live.erase b, freed := b.id :: h.freed }

/-- `malloc(size)`, which does not touch the bytes. -/
def malloc (h : CHeap) (size answer : Nat) : Except Fault (Nat × CHeap) :=
  if h.Fresh size answer then .ok (answer, h.allocated size answer) else .error .badAnswer

/-- `free(p)`. -/
def free (h : CHeap) (p : Nat) : Except Fault CHeap :=
  if p = 0 then .ok h
  else
    match h.live.find? (·.start = p) with
    | some b => .ok (h.released b)
    | none => .error (.badFree p)

/-- The byte at `a`. -/
def readByte (h : CHeap) (a : Nat) : Except Fault UInt8 :=
  if h.Readable a then .ok (h.mem a) else .error (.badRead a)

/-- Write the byte at `a`. -/
def writeByte (h : CHeap) (a : Nat) (v : UInt8) : Except Fault CHeap :=
  if h.Writable a then .ok { h with mem := h.mem.setByte a v } else .error (.badWrite a)

/-- The loop of `strlen`. -/
def strlenLoop (h : CHeap) : Nat → Nat → Except Fault Nat
  | 0, _ => .error .outOfFuel
  | fuel + 1, p => do
      let c ← h.readByte p
      if c = 0 then return 0
      else return (← strlenLoop h fuel (p + 1)) + 1

/-- `strlen(p)`. -/
def strlen (h : CHeap) (p : Nat) : Except Fault Nat := h.strlenLoop h.limit p

/-- The loop of `strcpy`, which copies the NUL last. -/
def strcpyLoop : Nat → Nat → Nat → CHeap → Except Fault CHeap
  | 0, _, _, _ => .error .outOfFuel
  | fuel + 1, dst, src, h => do
      let c ← h.readByte src
      let h ← h.writeByte dst c
      if c = 0 then return h
      else strcpyLoop fuel (dst + 1) (src + 1) h

/-- `strcpy(dst, src)`. -/
def strcpy (h : CHeap) (dst src : Nat) : Except Fault CHeap := strcpyLoop h.limit dst src h

end CHeap

/-! ## Strings -/

/-- From `p` on there are the bytes of `s`, none of them NUL, and a NUL. -/
def HoldsString (m : Mem) : Nat → List UInt8 → Prop
  | p, [] => m p = 0
  | p, c :: s => m p = c ∧ c ≠ 0 ∧ HoldsString m (p + 1) s

instance holdsStringDecidable (m : Mem) : ∀ p s, Decidable (HoldsString m p s)
  | p, [] => inferInstanceAs (Decidable (m p = 0))
  | p, c :: s =>
      have := holdsStringDecidable m (p + 1) s
      inferInstanceAs (Decidable (m p = c ∧ c ≠ 0 ∧ HoldsString m (p + 1) s))

/-- A string depends on its own bytes and its NUL only. -/
theorem HoldsString.congr {m m' : Mem} {p : Nat} {s : List UInt8} (holds : HoldsString m p s)
    (same : ∀ x, p ≤ x → x < p + (s.length + 1) → m' x = m x) : HoldsString m' p s := by
  induction s generalizing p with
  | nil => exact (same p (Nat.le_refl p) (by omega)).trans holds
  | cons c s ih =>
    rcases holds with ⟨first, nonzero, rest⟩
    refine ⟨(same p (Nat.le_refl p) (by omega)).trans first, nonzero, ?_⟩
    refine ih rest fun x lower upper => ?_
    apply same x (by omega)
    rw [List.length_cons]
    omega

namespace CHeap

variable {h : CHeap} {p dst src fuel : Nat} {s : List UInt8}

theorem readByte_of_readable (readable : h.Readable p) : h.readByte p = .ok (h.mem p) :=
  if_pos readable

theorem writeByte_of_writable (writable : h.Writable p) (v : UInt8) :
    h.writeByte p v = .ok { h with mem := h.mem.setByte p v } :=
  if_pos writable

/-- A readable string. -/
structure StringAt (h : CHeap) (p : Nat) (s : List UInt8) : Prop where
  holds : HoldsString h.mem p s
  readable : ∀ x, p ≤ x → x < p + (s.length + 1) → h.Readable x

instance (h : CHeap) (p : Nat) (s : List UInt8) : Decidable (h.StringAt p s) :=
  decidable_of_iff (HoldsString h.mem p s ∧ ∀ j < s.length + 1, h.Readable (p + j))
    ⟨fun ⟨holds, readable⟩ => ⟨holds, fun x lower upper =>
        Nat.add_sub_cancel' lower ▸ readable (x - p) (by omega)⟩,
      fun string => ⟨string.holds, fun j below =>
        string.readable (p + j) (Nat.le_add_right _ _) (by omega)⟩⟩

/-- `strlen` stops at the NUL. -/
theorem strlenLoop_eq (string : h.StringAt p s) (enough : s.length < fuel) :
    h.strlenLoop fuel p = .ok s.length := by
  rcases string with ⟨holds, readable⟩
  induction s generalizing p fuel with
  | nil =>
    rcases fuel with _ | fuel
    · exact absurd enough (Nat.not_lt_zero _)
    · have nul : h.mem p = 0 := holds
      have read := readByte_of_readable (readable p (Nat.le_refl p) (by omega))
      simp only [strlenLoop, read, nul, bind, Except.bind, if_true]
      rfl
  | cons c s ih =>
    rw [List.length_cons] at enough readable
    rcases fuel with _ | fuel
    · exact absurd enough (Nat.not_lt_zero _)
    · rcases holds with ⟨first, nonzero, rest⟩
      have read := readByte_of_readable (readable p (Nat.le_refl p) (by omega))
      have later := ih (Nat.lt_of_succ_lt_succ enough) rest fun x lower upper =>
        readable x (by omega) (by omega)
      simp only [strlenLoop, read, first, bind, Except.bind, if_neg nonzero, later]
      rfl

/-- `strcpy` copies a string to memory apart from it, and writes nothing else. -/
theorem strcpyLoop_eq (string : h.StringAt src s) (enough : s.length < fuel)
    (writable : ∀ x, dst ≤ x → x < dst + (s.length + 1) → h.Writable x)
    (apart : Interval.Apart ⟨dst, s.length + 1⟩ ⟨src, s.length + 1⟩) :
    ∃ m, strcpyLoop fuel dst src h = .ok { h with mem := m } ∧ HoldsString m dst s ∧
      ∀ x, x < dst ∨ dst + (s.length + 1) ≤ x → m x = h.mem x := by
  rcases string with ⟨holds, readable⟩
  induction s generalizing dst src fuel h with
  | nil =>
    rcases fuel with _ | fuel
    · exact absurd enough (Nat.not_lt_zero _)
    · have nul : h.mem src = 0 := holds
      have read := readByte_of_readable (readable src (Nat.le_refl src) (by omega))
      have write := writeByte_of_writable (writable dst (Nat.le_refl dst) (by omega)) 0
      refine ⟨h.mem.setByte dst 0, ?_, Mem.setByte_same .., fun x outside => ?_⟩
      · simp only [strcpyLoop, read, nul, write, bind, Except.bind, if_true]
        rfl
      · exact Mem.setByte_other _ _ (by rw [List.length_nil] at outside; omega)
  | cons c s ih =>
    rw [List.length_cons] at enough readable writable apart
    rcases fuel with _ | fuel
    · exact absurd enough (Nat.not_lt_zero _)
    · rcases holds with ⟨first, nonzero, rest⟩
      unfold Interval.Apart Interval.stop at apart
      simp only at apart
      have read := readByte_of_readable (readable src (Nat.le_refl src) (by omega))
      have write := writeByte_of_writable (writable dst (Nat.le_refl dst) (by omega)) c
      -- the byte written misses the rest of the source
      have unread : HoldsString (h.mem.setByte dst c) (src + 1) s :=
        rest.congr fun x lower upper => Mem.setByte_other _ _ (by omega)
      have room : ∀ x, dst + 1 ≤ x → x < dst + 1 + (s.length + 1) → h.Writable x :=
        fun x lower upper => writable x (by omega) (by omega)
      have clear : Interval.Apart ⟨dst + 1, s.length + 1⟩ ⟨src + 1, s.length + 1⟩ := by
        unfold Interval.Apart Interval.stop
        simp only
        omega
      rcases ih (h := { h with mem := h.mem.setByte dst c }) (Nat.lt_of_succ_lt_succ enough) room
          clear unread (fun x lower upper => readable x (by omega) (by omega)) with
        ⟨m, copied, holds, others⟩
      refine ⟨m, ?_, ⟨?_, nonzero, holds⟩, fun x outside => ?_⟩
      · simp only [strcpyLoop, read, first, write, bind, Except.bind, if_neg nonzero]
        exact copied
      · rw [others dst (by omega)]
        exact Mem.setByte_same ..
      · rw [List.length_cons] at outside
        rw [others x (by omega)]
        exact Mem.setByte_other _ _ (by omega)

/-! ## Undisturbed heaps -/

/-- The live buffers and the other memory lie below the limit, the live buffers are
apart, and every number given out is that of a live buffer or was freed, once. -/
structure Wf (h : CHeap) : Prop where
  bounds : ∀ b ∈ h.live, 0 < b.start ∧ 0 < b.length ∧ b.start + b.length < h.limit
  outside : ∀ I ∈ h.outside, 0 < I.start ∧ I.stop < h.limit
  apart : h.live.Pairwise fun b c => Interval.Apart b.span c.span
  numbered : (h.live.map Buffer.id ++ h.freed).Perm (List.range h.count)

theorem wf_init {mem : Mem} {limit : Nat} {outside : List Interval}
    (bounds : ∀ I ∈ outside, 0 < I.start ∧ I.stop < limit) : (init mem limit outside).Wf where
  bounds _ member := nomatch member
  outside := bounds
  apart := .nil
  numbered := .refl _

namespace Wf

variable {b c : Buffer} {a size answer : Nat}

/-- What the bytes are does not matter. -/
theorem withMem (wf : h.Wf) (m : Mem) : Wf { h with mem := m } :=
  ⟨wf.bounds, wf.outside, wf.apart, wf.numbered⟩

theorem readable_bounds (wf : h.Wf) (readable : h.Readable a) : 0 < a ∧ a < h.limit := by
  rcases readable with ⟨b, live, inside⟩ | ⟨I, member, inside⟩
  · rcases wf.bounds b live with ⟨nonzero, _, below⟩
    rw [Interval.mem_def] at inside
    simp only [Buffer.span] at inside
    omega
  · rcases wf.outside I member with ⟨nonzero, below⟩
    rw [Interval.mem_def] at inside
    simp only [Interval.stop] at below
    omega

/-- Different live buffers start at different addresses. -/
theorem start_inj (wf : h.Wf) (left : b ∈ h.live) (right : c ∈ h.live) (same : b.start = c.start) :
    b = c := by
  by_contra different
  have symm : Std.Symm fun b c : Buffer => Interval.Apart b.span c.span :=
    ⟨fun _ _ apart => apart.symm⟩
  have apart := wf.apart.forall left right different
  have positive := (wf.bounds b left).2.1
  have positive' := (wf.bounds c right).2.1
  simp only [Interval.Apart, Interval.stop, Buffer.span] at apart
  omega

theorem nodup (wf : h.Wf) : h.live.Nodup :=
  List.Nodup.of_map Buffer.id (List.nodup_append.mp (wf.numbered.nodup_iff.mpr List.nodup_range)).1

/-- `malloc` on a fresh answer. -/
theorem malloc (wf : h.Wf) (fresh : h.Fresh size answer) (positive : 0 < size) :
    h.malloc size answer = .ok (answer, h.allocated size answer) ∧
      (h.allocated size answer).Wf := by
  rcases fresh with ⟨nonzero, below, apart, others⟩
  refine ⟨if_pos ⟨nonzero, below, apart, others⟩, ?_⟩
  refine { bounds := ?_, outside := wf.outside, apart := ?_, numbered := ?_ }
  · exact List.forall_mem_cons.mpr ⟨⟨nonzero, positive, below⟩, wf.bounds⟩
  · exact List.pairwise_cons.mpr ⟨apart, wf.apart⟩
  · simp only [allocated, List.map_cons, List.cons_append, List.range_succ]
    exact (wf.numbered.cons _).trans (List.perm_append_singleton _ _).symm

/-- `free` on the start of a live buffer. -/
theorem free (wf : h.Wf) (live : b ∈ h.live) :
    h.free b.start = .ok (h.released b) ∧ (h.released b).Wf := by
  have found : h.live.find? (·.start = b.start) = some b := by
    cases find : h.live.find? (·.start = b.start) with
    | none => exact absurd (List.find?_eq_none.mp find b live) (by simp)
    | some c =>
      have start := List.find?_some find
      rw [decide_eq_true_eq] at start
      rw [wf.start_inj (List.mem_of_find?_eq_some find) live start]
  have perm := List.perm_cons_erase live
  refine ⟨?_, { bounds := ?_, outside := wf.outside, apart := ?_, numbered := ?_ }⟩
  · rw [CHeap.free, if_neg (wf.bounds b live).1.ne', found]
  · exact fun c member => wf.bounds c (List.mem_of_mem_erase member)
  · exact wf.apart.sublist List.erase_sublist
  · have ids := (perm.map Buffer.id).append_right h.freed
    exact (List.perm_middle.trans ids.symm).trans wf.numbered

/-- A readable string is shorter than memory. -/
theorem length_lt (wf : h.Wf) (string : h.StringAt p s) : s.length + 1 < h.limit := by
  have first := wf.readable_bounds (string.readable p (Nat.le_refl p) (by omega))
  have last := wf.readable_bounds (string.readable (p + s.length) (by omega) (by omega))
  omega

theorem strlen (wf : h.Wf) (string : h.StringAt p s) : h.strlen p = .ok s.length :=
  strlenLoop_eq string (by have := wf.length_lt string; omega)

/-- A fresh buffer is apart from every string that could be read before. -/
theorem apart_of_fresh (string : h.StringAt p s) (fresh : h.Fresh (s.length + 1) answer) :
    Interval.Apart ⟨answer, s.length + 1⟩ ⟨p, s.length + 1⟩ := by
  by_contra overlap
  simp only [Interval.Apart, Interval.stop, not_or, Nat.not_le] at overlap
  rcases fresh with ⟨_, _, apart, others⟩
  -- the larger of the two starts lies in both
  rcases string.readable (max answer p) (Nat.le_max_right _ _) (by omega) with
    ⟨b, live, inside⟩ | ⟨I, member, inside⟩
  · have separate := (apart b live).separate (max answer p)
      ⟨Nat.le_max_left _ _, by simp only; omega⟩
    exact separate inside
  · have separate := (others I member).separate (max answer p)
      ⟨Nat.le_max_left _ _, by simp only; omega⟩
    exact separate inside

/-- `strcpy` of a string to a buffer just obtained. -/
theorem strcpy (wf : h.Wf) (string : h.StringAt p s) (fresh : h.Fresh (s.length + 1) answer) :
    ∃ m, (h.allocated (s.length + 1) answer).strcpy answer p =
        .ok { h.allocated (s.length + 1) answer with mem := m } ∧
      HoldsString m answer s ∧
      ∀ x, x < answer ∨ answer + (s.length + 1) ≤ x → m x = h.mem x := by
  have short := wf.length_lt string
  have apart := apart_of_fresh string fresh
  have readable : (h.allocated (s.length + 1) answer).StringAt p s := by
    refine ⟨string.holds, fun x lower upper => (string.readable x lower upper).imp_left ?_⟩
    rintro ⟨b, live, inside⟩
    exact ⟨b, List.mem_cons_of_mem _ live, inside⟩
  refine strcpyLoop_eq readable ?_ (fun x lower upper => ?_) apart
  · change s.length < h.limit
    omega
  · exact ⟨_, List.mem_cons_self, lower, upper⟩

end Wf

end CHeap

end TorchTest
