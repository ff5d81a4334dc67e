import TorchTest.PoolAlloc.Ownership

/-!
# The pool between the lines of its threads

A call takes effect at one line: a request where it takes the head of its list, where
`_M_allocate_chunk` returns, or where the system answers; a block given back where its link
is stored. The lines that a thread still has to run under the lock after its call took
effect do not matter to the others: with `Pc.finish`, which runs them at once, the pool is
always that of a sequential run of the calls in the order of their effects, up to
`_S_force_new` (`Coherent`). Every step keeps this, and those with an effect make a step of
the sequential run.
-/

namespace TorchTest.PoolAlloc.Threads

/-- `__n` of `_M_refill`. -/
abbrev objSize (T : ElemType) (n : Nat) : Nat := roundUp (Call.allocate T n).bytes

/-- The lines that are left to run under the lock, all at once. -/
def Pc.finish : Pc → Pool → Pool
  | .heading T n chunk nobjs, pool =>
      { pool with
        freeList := Function.update pool.freeList (getFreeList (objSize T n)) (chunk + objSize T n)
        machine := threaded 0 (objSize T n) (nobjs - 2) (chunk + objSize T n) pool.machine }
  | .linking T n _ nobjs i currentObj, pool =>
      { pool with
        machine := threaded 0 (objSize T n) (nobjs - 1 - i) currentObj pool.machine }
  | .pushing T p n, pool =>
      { pool with
        freeList := Function.update pool.freeList (getFreeList (Call.deallocate T p n).bytes) p }
  | _, pool => pool

/-- What a thread has found out about its call. -/
def Pc.Static : Pc → Prop
  | .asking T n => (Call.allocate T n).Fits
  | .branch c => c.Fits
  | .system c => c.Fits ∧ maxBytes < c.bytes
  | .lock c | .locked c => c.Fits ∧ c.bytes ≤ maxBytes
  | .popping T n _ | .refilling T n | .heading T n _ _ | .linking T n _ _ _ _ =>
      (Call.allocate T n).Fits ∧ (Call.allocate T n).bytes ≤ maxBytes
  | .pushing T p n => (Call.deallocate T p n).Fits ∧ (Call.deallocate T p n).bytes ≤ maxBytes
  | _ => True

/-- The block sizes and the list of a request that the pool serves. -/
theorem Call.Fits.small {T : ElemType} {n : Nat} (fits : (Call.allocate T n).Fits)
    (small : (Call.allocate T n).bytes ≤ maxBytes) :
    n * T.size ≤ maxBytes ∧ getFreeList (Call.allocate T n).bytes = classOf (n * T.size) ∧
      objSize T n = classSize (classOf (n * T.size)) ∧
      getFreeList (objSize T n) = classOf (n * T.size) := by
  have bytes : (Call.allocate T n).bytes = n * T.size := SizeT.mul_eq fits.2
  have some : 0 < n * T.size := Nat.mul_pos (Nat.pos_of_ne_zero fits.1) T.size_pos
  rw [bytes] at small
  have size : objSize T n = classSize (classOf (n * T.size)) := by
    rw [objSize, bytes, roundUp_eq_classSize some small]
  exact ⟨small, by rw [bytes, getFreeList_eq some small], size,
    by rw [size, getFreeList_classSize (classOf_lt small)]⟩

/-- The operation that a sequential event is. -/
def opOf : PoolAlloc.Event → Op
  | .allocate T n _ => .call (.allocate T n)
  | .deallocate T p n => .call (.deallocate T p n)
  | .write a v => .write a v

/-- The sequential pool serves an operation, with some answer of the system. -/
def Serves (q : World) (op : Op) (r : Result) (q' : World) : Prop :=
  ∃ e, opOf e = op ∧ q.Valid e ∧ q.step e = (q', r)

namespace State

variable {τ : Type}

/-- What a thread under the lock has found out about the lists and the memory. -/
def Critical (s : State τ) : Pc → Prop
  | .popping T n result =>
      s.pool.freeList (getFreeList (Call.allocate T n).bytes) = result ∧ result ≠ 0
  | .refilling T n => s.pool.freeList (getFreeList (Call.allocate T n).bytes) = 0
  | .heading T n chunk nobjs => 2 ≤ nobjs ∧
      s.world.Chunk s.pool.regions ⟨chunk + objSize T n, (nobjs - 1) * objSize T n⟩
  | .linking T n _ nobjs i currentObj => i < nobjs ∧
      s.world.Chunk s.pool.regions ⟨currentObj, (nobjs - i) * objSize T n⟩
  | _ => True

/-- What was found out under the lock stays true if the lists and the regions stay, and
new blocks lie outside the regions. -/
theorem Critical.congr {s s' : State τ} {pc : Pc} (critical : s.Critical pc)
    (freeList : s'.pool.freeList = s.pool.freeList) (requests : s'.pool.requests = s.pool.requests)
    (inUse : ∀ b ∈ s'.inUse, b ∈ s.inUse ∨ ∀ r ∈ s.pool.regions, b.span.Separate r) :
    s'.Critical pc := by
  have regions : s'.pool.regions = s.pool.regions := congrArg (List.filterMap _) requests
  cases pc with
  | popping T n result =>
    unfold Critical
    rw [freeList]
    exact critical
  | refilling T n =>
    unfold Critical
    rw [freeList]
    exact critical
  | heading T n chunk nobjs =>
    unfold Critical
    rw [regions]
    exact ⟨critical.1, critical.2.congr fun b member =>
      (inUse b member).imp_right critical.2.outside⟩
  | linking T n chunk nobjs i currentObj =>
    unfold Critical
    rw [regions]
    exact ⟨critical.1, critical.2.congr fun b member =>
      (inUse b member).imp_right critical.2.outside⟩
  | _ => exact True.intro

/-- The line at which the thread with the mutex is. -/
def holder (s : State τ) : Pc := s.mutex.elim .idle s.pc

/-- The threads have done to the pool what the sequential run to `q` does, up to the lines
that are left to run under the lock. -/
structure Coherent (s : State τ) (q : World) : Prop where
  valid : ∃ A, q.Inv A
  live : q.live = s.inUse
  mirror : s.holder.finish s.pool = q.pool.withFlags s.pool.forceNew
  flags : ∀ T, s.pool.forceNew T ≤ 0
  mutex : ∀ t, (s.pc t).inside = true ↔ s.mutex = some t
  static : ∀ t, (s.pc t).Static
  critical : s.Critical s.holder
  owned : ∃ place, s.Owned place

variable {s s' : State τ} {q q' : World} {t : τ} {pc : Pc} {answer : Option Nat}

theorem requests_finish (pc : Pc) (pool : Pool) : (pc.finish pool).requests = pool.requests := by
  cases pc <;> rfl

namespace Coherent

theorem requests (coh : s.Coherent q) : q.pool.requests = s.pool.requests := by
  have same := congrArg Pool.requests coh.mirror
  rw [requests_finish] at same
  exact same.symm

/-- An event of the sequential run that leaves the blocks and requests as in `s'` is one
that the sequential pool serves. -/
theorem serve (coh : s.Coherent q) (s' : State τ) {e : PoolAlloc.Event} {r : Result}
    (stepped : q.step e = (q', r)) (client : q.ClientOk e) (live : q'.live = s'.inUse)
    (requests : q'.pool.requests = s'.pool.requests)
    (granted : Granted (s'.world.direct ++ s'.pool.regions)) :
    Serves q (opOf e) r q' ∧ ∃ A, q'.Inv A := by
  rcases coh.valid with ⟨A, inv⟩
  have same : q'.direct ++ q'.pool.regions = s'.world.direct ++ s'.pool.regions := by
    unfold World.direct Pool.regions
    rw [live, requests]
    rfl
  have valid : q.Valid e := by
    refine ⟨?_, client⟩
    unfold World.SystemOk
    rw [stepped, same]
    exact granted
  have after := (inv.step valid).1
  rw [stepped] at after
  exact ⟨⟨e, rfl, valid, stepped⟩, _, after⟩

variable [DecidableEq τ]

/-- Other threads know what they knew. -/
theorem statics (coh : s.Coherent q) (pcs : s'.pc = Function.update s.pc t pc)
    (static : pc.Static) (u : τ) : (s'.pc u).Static := by
  rw [pcs]
  rcases eq_or_ne u t with rfl | other
  · rwa [Function.update_self]
  · rw [Function.update_of_ne other]
    exact coh.static u

/-- A thread that neither takes nor gives up the mutex. -/
theorem mutexes (coh : s.Coherent q) (pcs : s'.pc = Function.update s.pc t pc)
    (mutex : s'.mutex = s.mutex) (same : pc.inside = (s.pc t).inside) (u : τ) :
    (s'.pc u).inside = true ↔ s'.mutex = some u := by
  rw [pcs, mutex]
  rcases eq_or_ne u t with rfl | other
  · rw [Function.update_self, same]
    exact coh.mutex u
  · rw [Function.update_of_ne other]
    exact coh.mutex u

/-- The holder stays where it is when another thread moves. -/
theorem holder_outside (coh : s.Coherent q) (pcs : s'.pc = Function.update s.pc t pc)
    (mutex : s'.mutex = s.mutex) (outside : (s.pc t).inside = false) : s'.holder = s.holder := by
  unfold holder
  rw [mutex]
  cases held : s.mutex with
  | none => rfl
  | some u =>
    have other : u ≠ t := by
      rintro rfl
      rw [(coh.mutex u).mpr held] at outside
      cases outside
    change s'.pc u = s.pc u
    rw [pcs, Function.update_of_ne other]

omit [DecidableEq τ] in
theorem holder_eq (coh : s.Coherent q) (inside : (s.pc t).inside = true) : s.holder = s.pc t := by
  rw [holder, (coh.mutex t).mp inside]
  rfl

/-- The line of the holder after its step. -/
theorem holder_inside (coh : s.Coherent q) (pcs : s'.pc = Function.update s.pc t pc)
    (mutex : s'.mutex = s.mutex) (inside : (s.pc t).inside = true) : s'.holder = pc := by
  rw [holder, mutex, (coh.mutex t).mp inside]
  change s'.pc t = pc
  rw [pcs, Function.update_self]

/-- A step of a thread that is outside the lock and stays there. -/
theorem outside (coh : s.Coherent q) (pcs : s'.pc = Function.update s.pc t pc)
    (mutex : s'.mutex = s.mutex) (out : (s.pc t).inside = false) (out' : pc.inside = false)
    (static : pc.Static) (valid : ∃ A, q'.Inv A) (live : q'.live = s'.inUse)
    (flags : ∀ T, s'.pool.forceNew T ≤ 0)
    (mirror : s.holder.finish s'.pool = q'.pool.withFlags s'.pool.forceNew)
    (critical : s'.Critical s.holder) (owned : ∃ place, s'.Owned place) : s'.Coherent q' where
  valid := valid
  live := live
  mirror := coh.holder_outside pcs mutex out ▸ mirror
  flags := flags
  mutex := coh.mutexes pcs mutex (out'.trans out.symm)
  static := coh.statics pcs static
  critical := coh.holder_outside pcs mutex out ▸ critical
  owned := owned

/-- A step of the thread that is under the lock and stays there. -/
theorem inside (coh : s.Coherent q) (pcs : s'.pc = Function.update s.pc t pc)
    (mutex : s'.mutex = s.mutex) (under : (s.pc t).inside = true) (under' : pc.inside = true)
    (static : pc.Static) (valid : ∃ A, q'.Inv A) (live : q'.live = s'.inUse)
    (flags : ∀ T, s'.pool.forceNew T ≤ 0)
    (mirror : pc.finish s'.pool = q'.pool.withFlags s'.pool.forceNew)
    (critical : s'.Critical pc) (owned : ∃ place, s'.Owned place) : s'.Coherent q' where
  valid := valid
  live := live
  mirror := coh.holder_inside pcs mutex under ▸ mirror
  flags := flags
  mutex := coh.mutexes pcs mutex (under'.trans under.symm)
  static := coh.statics pcs static
  critical := coh.holder_inside pcs mutex under ▸ critical
  owned := owned

/-! ### Steps without an effect -/

/-- A thread goes to another line outside the lock. -/
theorem goto_outside (coh : s.Coherent q) (out : (s.pc t).inside = false)
    (out' : pc.inside = false) (static : pc.Static) (carries : pc.carries = (s.pc t).carries) :
    (s.goto t pc).Coherent q := by
  rcases coh.owned with ⟨place, owned⟩
  exact coh.outside rfl rfl out out' static coh.valid coh.live coh.flags coh.mirror coh.critical
    ⟨place, owned.keep rfl carries rfl rfl⟩

/-- The first tests, and the choice between the pool and the system. -/
theorem pass (coh : s.Coherent q) (pass : s.Pass (s.pc t) pc) : (s.goto t pc).Coherent q := by
  have static := coh.static t
  generalize at_t : s.pc t = old at pass static
  have out : ∀ {b}, old.inside = b → (s.pc t).inside = b := fun same => at_t ▸ same
  have carries : ∀ {b}, b = old.carries → b = (s.pc t).carries := fun same => at_t ▸ same
  cases pass with
  | undecided T n fits => exact coh.goto_outside (out rfl) rfl fits (carries rfl)
  | begun c fits => exact coh.goto_outside (out rfl) rfl fits (carries rfl)
  | large c large =>
    have forced : ¬0 < s.pool.forceNew c.type := (coh.flags _).not_gt
    exact coh.goto_outside (out rfl) rfl ⟨static, large.resolve_right forced⟩ (carries rfl)
  | small c small => exact coh.goto_outside (out rfl) rfl ⟨static, small⟩ (carries rfl)

/-- A thread goes to another line under the lock. -/
theorem goto_inside (coh : s.Coherent q) (under : (s.pc t).inside = true)
    (under' : pc.inside = true) (static : pc.Static) (carries : pc.carries = (s.pc t).carries)
    (finish : pc.finish s.pool = (s.pc t).finish s.pool) (critical : s.Critical pc) :
    (s.goto t pc).Coherent q := by
  rcases coh.owned with ⟨place, owned⟩
  have mirror := coh.mirror
  rw [coh.holder_eq under, ← finish] at mirror
  exact coh.inside rfl rfl under under' static coh.valid coh.live coh.flags mirror critical
    ⟨place, owned.keep rfl carries rfl rfl⟩

/-- `_S_force_new` is counted down. -/
theorem ask (coh : s.Coherent q) {T : ElemType} {n : Nat} (at_t : s.pc t = .asking T n) :
    State.Coherent
      { s.goto t (.branch (.allocate T n)) with
        pool := s.pool.withFlags
          (Function.update s.pool.forceNew T (s.pool.forceNew T + -1)) } q := by
  rcases coh.owned with ⟨place, owned⟩
  have static := coh.static t
  rw [at_t] at static
  have mirror := congrArg (Pool.withFlags · (Function.update s.pool.forceNew T
    (s.pool.forceNew T + -1))) coh.mirror
  refine coh.outside rfl rfl (by rw [at_t]; rfl) rfl static coh.valid coh.live (fun U => ?_) ?_ ?_
    ⟨place, owned.keep rfl (by rw [at_t]; rfl) rfl rfl⟩
  · rcases eq_or_ne U T with rfl | other
    · have before := coh.flags U
      simp only [Pool.withFlags, Function.update_self]
      omega
    · simp only [Pool.withFlags, Function.update_of_ne other]
      exact coh.flags U
  · refine Eq.trans ?_ mirror
    cases s.holder <;> rfl
  · exact coh.critical.congr rfl rfl fun b member => .inl member

/-- A thread takes the mutex. -/
theorem enter (coh : s.Coherent q) {c : Call} (at_t : s.pc t = .lock c) (free : s.mutex = none) :
    State.Coherent { s.goto t (.locked c) with mutex := some t } q := by
  rcases coh.owned with ⟨place, owned⟩
  have static := coh.static t
  have mirror := coh.mirror
  have nobody : ∀ u, (s.pc u).inside = false := fun u => by
    rw [← Bool.not_eq_true, coh.mutex, free]
    exact nofun
  have before : s.holder = .idle := by rw [holder, free]; rfl
  have after : State.holder { s.goto t (.locked c) with mutex := some t } = .locked c :=
    Function.update_self ..
  rw [at_t] at static
  rw [before] at mirror
  exact
    { valid := coh.valid, live := coh.live, flags := coh.flags,
      mirror := by
        rw [after]
        exact mirror,
      mutex := fun u => by
        rcases eq_or_ne u t with rfl | other
        · simp [goto, Pc.inside]
        · simp [goto, Function.update_of_ne other, nobody u, other.symm],
      static := coh.statics rfl static,
      critical := by
        rw [after]
        exact True.intro,
      owned := ⟨place, owned.keep rfl (by rw [at_t]; rfl) rfl rfl⟩ }

/-- A thread gives up the mutex. -/
theorem unlock (coh : s.Coherent q) {c : Call} {r : Result} (at_t : s.pc t = .unlocking c r) :
    State.Coherent { s.goto t (.leaving c r) with mutex := none } q := by
  rcases coh.owned with ⟨place, owned⟩
  have mirror := coh.mirror
  have under : (s.pc t).inside = true := by rw [at_t]; rfl
  rw [coh.holder_eq under, at_t] at mirror
  exact
    { valid := coh.valid, live := coh.live, mirror := mirror, flags := coh.flags,
      mutex := fun u => by
        rcases eq_or_ne u t with rfl | other
        · simp [goto, Pc.inside]
        · have outside : (s.pc u).inside = false := by
            rw [← Bool.not_eq_true, coh.mutex, (coh.mutex t).mp under]
            exact fun same => other (Option.some.inj same).symm
          simp [goto, Function.update_of_ne other, outside],
      static := coh.statics rfl True.intro, critical := True.intro,
      owned := ⟨place, owned.keep rfl (by rw [at_t]; rfl) rfl rfl⟩ }

/-- A call returns, and hands its block over. -/
theorem leave (coh : s.Coherent q) {c : Call} {r : Result} (at_t : s.pc t = .leaving c r) :
    State.Coherent { s.goto t .idle with held := (c.got r).toList ++ s.held } q := by
  rcases coh.owned with ⟨place, owned⟩
  have carries : (s.pc t).carries = c.got r := by rw [at_t]; rfl
  refine coh.outside rfl rfl (by rw [at_t]; rfl) rfl True.intro coh.valid coh.live coh.flags
    coh.mirror coh.critical ?_
  cases got : c.got r with
  | none => exact ⟨place, owned.keep rfl (by rw [carries, got]; rfl) rfl rfl⟩
  | some b => exact ⟨_, owned.hand (carries.trans got) rfl rfl rfl rfl⟩

/-- A call begins, and takes its block over. -/
theorem call (coh : s.Coherent q) {c : Call} (idle : s.pc t = .idle)
    (held : ∀ b ∈ c.block, b ∈ s.held) :
    State.Coherent { s.goto t (.entry c) with held := c.block.elim s.held s.held.erase } q := by
  rcases coh.owned with ⟨place, owned⟩
  refine coh.outside rfl rfl (by rw [idle]; rfl) rfl True.intro coh.valid coh.live coh.flags
    coh.mirror coh.critical ?_
  cases block : c.block with
  | none => exact ⟨place, owned.keep rfl (by rw [idle]; exact block) rfl rfl⟩
  | some b => exact ⟨_, owned.take (held b block) (by rw [idle]; rfl) rfl block rfl rfl⟩

/-! ### Effects outside the lock -/

/-- A call that its first tests answer. -/
theorem answered (coh : s.Coherent q) {c : Call} {r : Result} (at_t : s.pc t = .entry c)
    (trivially : Trivial c r) (granted : Granted (s.world.direct ++ s.pool.regions)) :
    Serves q (.call c) r q ∧ (s.goto t (.leaving c r)).Coherent q := by
  rcases coh.valid with ⟨A, inv⟩
  have stays : ∀ {e}, q.step e = (q, r) → q.ClientOk e → Serves q (opOf e) r q :=
    fun stepped client => (coh.serve s stepped client coh.live coh.requests granted).1
  have out : (s.pc t).inside = false := by rw [at_t]; rfl
  have carried : (s.pc t).carries = c.block := by rw [at_t]; rfl
  cases trivially with
  | nothing T =>
    exact ⟨stays (e := .allocate T 0 none) World.step_zero True.intro,
      coh.goto_outside out rfl True.intro (carried ▸ rfl)⟩
  | beyond T n positive beyond =>
    exact ⟨stays (e := .allocate T n none) (World.step_beyond positive beyond) True.intro,
      coh.goto_outside out rfl True.intro (carried ▸ rfl)⟩
  | null T p n null =>
    rcases coh.owned with ⟨place, owned⟩
    -- a block that the thread carries has a count
    have nowhere : (Call.deallocate T p n).block = none := by
      by_contra some
      rcases Option.ne_none_iff_exists'.mp some with ⟨b, block⟩
      have used : b ∈ s.inUse := by
        rw [owned.inUse, (owned.carried t b).mp (carried.trans block)]
        nofun
      rw [← coh.live] at used
      by_cases zero : p = 0
      · rw [Call.block, if_pos zero] at block
        cases block
      · rw [Call.block, if_neg zero] at block
        cases block
        exact inv.counted _ used (null.resolve_right zero)
    have nullPtr : p = 0 := by
      by_contra nonzero
      rw [Call.block, if_neg nonzero] at nowhere
      cases nowhere
    exact ⟨stays (inv.step_null null) (Or.inl nullPtr),
      coh.goto_outside out rfl True.intro (carried.trans nowhere).symm⟩

/-- `::operator new` for a large block. -/
theorem obtain (coh : s.Coherent q) {T : ElemType} {n : Nat}
    (at_t : s.pc t = .system (.allocate T n))
    (granted : Granted (World.direct ⟨s.pool, (answer.map fun p => ⟨T, n, p⟩).toList ++ s.inUse⟩ ++
      s.pool.regions)) :
    ∃ q', Serves q (.call (.allocate T n)) (.ofOption answer) q' ∧ State.Coherent
      { s.goto t (.leaving (.allocate T n) (.ofOption answer)) with
        inUse := (answer.map fun p => ⟨T, n, p⟩).toList ++ s.inUse } q' := by
  have static := coh.static t
  rw [at_t] at static
  rcases static with ⟨⟨positive, fits⟩, large⟩
  have bytes : (Call.allocate T n).bytes = n * T.size := SizeT.mul_eq fits
  rw [bytes] at large
  rcases World.step_system (w := q) answer positive fits large with ⟨f, stepped⟩
  have live : (answer.map fun p => ⟨T, n, p⟩).toList ++ q.live =
      (answer.map fun p => (⟨T, n, p⟩ : Block)).toList ++ s.inUse := by rw [coh.live]
  rcases coh.serve { s.goto t (.leaving (.allocate T n) (.ofOption answer)) with
    inUse := (answer.map fun p => ⟨T, n, p⟩).toList ++ s.inUse } stepped True.intro live
    coh.requests granted with ⟨serves, A, inv'⟩
  refine ⟨_, serves, coh.outside rfl rfl (by rw [at_t]; rfl) rfl True.intro ⟨A, inv'⟩ live coh.flags
    coh.mirror (coh.critical.congr rfl rfl fun b member => ?_) ?_⟩
  · rcases List.mem_append.mp member with new | old
    · -- the new block came from the system, so it lies outside the regions
      cases answer with
      | none => cases new
      | some p =>
        cases List.mem_singleton.mp new
        exact .inr (World.direct_separate
          (w := ⟨s.pool, (Option.map (fun p => ⟨T, n, p⟩) (some p)).toList ++ s.inUse⟩) granted
          List.mem_cons_self (Nat.not_le.mpr large))
    · exact .inl old
  · rcases coh.owned with ⟨place, owned⟩
    cases answer with
    | none => exact ⟨place, owned.keep rfl (by rw [at_t]; rfl) rfl rfl⟩
    | some p =>
      have fresh : ⟨T, n, p⟩ ∉ s.inUse := by
        have nodup := inv'.nodup_live
        rw [live] at nodup
        exact (List.nodup_cons.mp nodup).1
      have carries : (Pc.leaving (.allocate T n) (.returned p)).carries = some ⟨T, n, p⟩ :=
        if_neg positive
      exact ⟨_, owned.gain fresh (by rw [at_t]; rfl) rfl carries rfl rfl⟩

/-- `::operator delete` for a large block. -/
theorem discard (coh : s.Coherent q) {T : ElemType} {p n : Nat}
    (at_t : s.pc t = .system (.deallocate T p n))
    (granted : Granted (World.direct ⟨s.pool, s.inUse.erase ⟨T, n, p⟩⟩ ++ s.pool.regions)) :
    ∃ q', Serves q (.call (.deallocate T p n)) .done q' ∧ State.Coherent
      { s.goto t (.leaving (.deallocate T p n) .done) with inUse := s.inUse.erase ⟨T, n, p⟩ } q' := by
  have static := coh.static t
  rw [at_t] at static
  rcases static with ⟨⟨positive, nonzero⟩, large⟩
  rcases coh.owned with ⟨place, owned⟩
  rcases coh.valid with ⟨A, inv⟩
  have carries : (s.pc t).carries = some ⟨T, n, p⟩ := by
    rw [at_t]
    exact if_neg nonzero
  have used : ⟨T, n, p⟩ ∈ q.live := by
    rw [coh.live, owned.inUse, (owned.carried t _).mp carries]
    nofun
  have live : q.live.erase ⟨T, n, p⟩ = s.inUse.erase ⟨T, n, p⟩ := by rw [coh.live]
  rcases coh.serve { s.goto t (.leaving (.deallocate T p n) .done) with
    inUse := s.inUse.erase ⟨T, n, p⟩ } (World.step_discard (w := q) (p := p) large) (Or.inr used)
    live coh.requests granted with ⟨serves, A', inv'⟩
  exact ⟨_, serves, coh.outside rfl rfl (by rw [at_t]; rfl) rfl True.intro ⟨A', inv'⟩ live coh.flags
    coh.mirror (coh.critical.congr rfl rfl fun b member => .inl (List.mem_of_mem_erase member))
    ⟨_, owned.lose (coh.live ▸ inv.nodup_live) carries rfl rfl rfl rfl⟩⟩

/-! ### Effects under the lock -/

omit [DecidableEq τ] in
/-- Before its effect, the pool of the holder is that of the sequential run. -/
theorem pool_eq (coh : s.Coherent q) (under : (s.pc t).inside = true)
    (before : (s.pc t).finish s.pool = s.pool) : s.pool = q.pool.withFlags s.pool.forceNew := by
  have mirror := coh.mirror
  rwa [coh.holder_eq under, before] at mirror

/-- The link of a block is stored. -/
theorem store (coh : s.Coherent q) {T : ElemType} {p n : Nat}
    (at_t : s.pc t = .locked (.deallocate T p n))
    (granted : Granted (World.direct ⟨s.pool, s.inUse.erase ⟨T, n, p⟩⟩ ++ s.pool.regions)) :
    ∃ q', Serves q (.call (.deallocate T p n)) .done q' ∧ State.Coherent
      { s.goto t (.pushing T p n) with
        pool := { s.pool with
          machine := s.pool.machine.storePtr p
            (s.pool.freeList (getFreeList (Call.deallocate T p n).bytes)) }
        inUse := s.inUse.erase ⟨T, n, p⟩ } q' := by
  have static := coh.static t
  have under : (s.pc t).inside = true := by rw [at_t]; rfl
  have same := coh.pool_eq under (by rw [at_t]; rfl)
  rw [at_t] at static
  rcases static with ⟨⟨positive, nonzero⟩, small⟩
  rcases coh.owned with ⟨place, owned⟩
  rcases coh.valid with ⟨A, inv⟩
  have carries : (s.pc t).carries = some ⟨T, n, p⟩ := by
    rw [at_t]
    exact if_neg nonzero
  have used : ⟨T, n, p⟩ ∈ q.live := by
    rw [coh.live, owned.inUse, (owned.carried t _).mp carries]
    nofun
  have live : q.live.erase ⟨T, n, p⟩ = s.inUse.erase ⟨T, n, p⟩ := by rw [coh.live]
  rcases coh.serve { s.goto t (.pushing T p n) with
    inUse := s.inUse.erase ⟨T, n, p⟩ } (inv.step_push positive nonzero small) (Or.inr used)
    live coh.requests granted with ⟨serves, A', inv'⟩
  refine ⟨_, serves, coh.inside rfl rfl under rfl ⟨⟨positive, nonzero⟩, small⟩ ⟨A', inv'⟩ live
    coh.flags ?_ True.intro ⟨_, owned.lose (coh.live ▸ inv.nodup_live) carries rfl rfl rfl rfl⟩⟩
  simp only [Pc.finish, Call.bytes]
  generalize getFreeList (SizeT.mul n T.size) = i
  exact congrArg (fun pool => pool.push i p) same

/-- The head of a list is taken off. -/
theorem pop (coh : s.Coherent q) {T : ElemType} {n result : Nat}
    (at_t : s.pc t = .popping T n result)
    (granted : Granted (World.direct ⟨s.pool, ⟨T, n, result⟩ :: s.inUse⟩ ++ s.pool.regions)) :
    ∃ q', Serves q (.call (.allocate T n)) (.returned result) q' ∧ State.Coherent
      { s.goto t (.unlocking (.allocate T n) (.returned result)) with
        pool := s.pool.pop (getFreeList (Call.allocate T n).bytes) result
        inUse := ⟨T, n, result⟩ :: s.inUse } q' := by
  have static := coh.static t
  have under : (s.pc t).inside = true := by rw [at_t]; rfl
  have same := coh.pool_eq under (by rw [at_t]; rfl)
  have critical := coh.critical
  rw [coh.holder_eq under, at_t] at critical
  rw [at_t] at static
  rcases static with ⟨fits, small⟩
  rcases critical with ⟨head, nonzero⟩
  rcases fits.small small with ⟨small', list, _, _⟩
  rcases coh.owned with ⟨place, owned⟩
  rcases coh.valid with ⟨A, inv⟩
  have head' : q.pool.freeList (classOf (n * T.size)) = result := by
    rw [← head, list, same]
    rfl
  rcases inv.step_pop fits.1 small' (head' ▸ nonzero) none with ⟨f, stepped⟩
  rw [head'] at stepped
  have live : ⟨T, n, result⟩ :: q.live = (⟨T, n, result⟩ : Block) :: s.inUse := by rw [coh.live]
  rcases coh.serve { s.goto t (.unlocking (.allocate T n) (.returned result)) with
    inUse := ⟨T, n, result⟩ :: s.inUse } stepped True.intro live coh.requests granted with
    ⟨serves, A', inv'⟩
  have fresh : ⟨T, n, result⟩ ∉ s.inUse := by
    have nodup := inv'.nodup_live
    rw [live] at nodup
    exact (List.nodup_cons.mp nodup).1
  have carries : (Pc.unlocking (.allocate T n) (.returned result)).carries = some ⟨T, n, result⟩ :=
    if_neg fits.1
  refine ⟨_, serves, coh.inside rfl rfl under rfl True.intro ⟨A', inv'⟩ live coh.flags ?_ True.intro
    ⟨_, owned.gain fresh (by rw [at_t]; rfl) rfl carries rfl rfl⟩⟩
  simp only [Pc.finish, list]
  generalize classOf (n * T.size) = i
  exact congrArg (fun pool => pool.pop i result) same

omit [DecidableEq τ] in
/-- What is known of a request at `_M_allocate_chunk`. -/
theorem refilling (coh : s.Coherent q) {T : ElemType} {n : Nat} (at_t : s.pc t = .refilling T n) :
    (Call.allocate T n).Fits ∧ n * T.size ≤ maxBytes ∧
      getFreeList (objSize T n) = classOf (n * T.size) ∧
      objSize T n = classSize (classOf (n * T.size)) ∧
      q.pool.freeList (classOf (n * T.size)) = 0 ∧
      s.pool = q.pool.withFlags s.pool.forceNew := by
  have static := coh.static t
  have under : (s.pc t).inside = true := by rw [at_t]; rfl
  have same := coh.pool_eq under (by rw [at_t]; rfl)
  have critical := coh.critical
  rw [coh.holder_eq under, at_t] at critical
  rw [at_t] at static
  rcases static with ⟨fits, small⟩
  rcases fits.small small with ⟨small', list, size, sizeList⟩
  refine ⟨fits, small', sizeList, size, ?_, same⟩
  simp only [Critical, list] at critical
  rw [same] at critical
  exact critical

/-- `_M_allocate_chunk` throws. -/
theorem throw (coh : s.Coherent q) {T : ElemType} {n : Nat} {e : Failure} {pool : Pool}
    (at_t : s.pc t = .refilling T n)
    (thrown : Pool.allocateChunk (objSize T n) 20 3 [answer] s.pool = (.error e, pool))
    (granted : Granted (World.direct ⟨pool, s.inUse⟩ ++ pool.regions)) :
    ∃ q', Serves q (.call (.allocate T n)) (.failed e) q' ∧ State.Coherent
      { s.goto t (.unlocking (.allocate T n) (.failed e)) with pool := pool } q' := by
  rcases coh.refilling at_t with ⟨fits, small, _, size, empty, same⟩
  rcases coh.owned with ⟨place, owned⟩
  rcases coh.valid with ⟨A, inv⟩
  rcases result : Pool.allocateChunk (classSize (classOf (n * T.size))) 20 3 [answer] q.pool with
    ⟨r, pool'⟩
  rw [size, same, Pool.allocateChunk_withFlags, result] at thrown
  cases thrown
  rcases inv.step_refused fits.1 small empty result with ⟨f, stepped⟩
  rcases coh.serve { s.goto t (.unlocking (.allocate T n) (.failed e)) with
    pool := pool'.withFlags s.pool.forceNew } stepped True.intro coh.live rfl granted with
    ⟨serves, A', inv'⟩
  exact ⟨_, serves, coh.inside rfl rfl (by rw [at_t]; rfl) rfl True.intro ⟨A', inv'⟩ coh.live
    coh.flags rfl True.intro ⟨place, owned.keep rfl (by rw [at_t]; rfl) rfl rfl⟩⟩

/-- `_M_allocate_chunk` returns a chunk. -/
theorem chunk (coh : s.Coherent q) {T : ElemType} {n chunk nobjs : Nat} {pool : Pool}
    (at_t : s.pc t = .refilling T n)
    (found : Pool.allocateChunk (objSize T n) 20 3 [answer] s.pool = (.ok (chunk, nobjs), pool))
    (granted : Granted (World.direct
      ⟨pool, ((Call.allocate T n).got (checkRet chunk)).toList ++ s.inUse⟩ ++ pool.regions)) :
    ∃ q', Serves q (.call (.allocate T n)) (checkRet chunk) q' ∧ State.Coherent
      { s.goto t (if nobjs = 1 then .unlocking (.allocate T n) (checkRet chunk)
          else .heading T n chunk nobjs) with
        pool := pool
        inUse := ((Call.allocate T n).got (checkRet chunk)).toList ++ s.inUse } q' := by
  rcases coh.refilling at_t with ⟨fits, small, list, size, empty, same⟩
  rcases coh.owned with ⟨place, owned⟩
  rcases coh.valid with ⟨A, inv⟩
  have under : (s.pc t).inside = true := by rw [at_t]; rfl
  have none : (s.pc t).carries = none := by rw [at_t]; rfl
  rcases result : Pool.allocateChunk (classSize (classOf (n * T.size))) 20 3 [answer] q.pool with
    ⟨r, pool'⟩
  rw [size, same, Pool.allocateChunk_withFlags, result] at found
  cases found
  have before : Granted (q.direct ++ pool'.regions) := by
    refine granted.sublist (List.Sublist.append_right ?_ _)
    rw [World.direct, coh.live]
    exact ((List.sublist_append_right _ _).filter _).map _
  rcases inv.chunk (classOf_lt small) result before with ⟨some, facts⟩
  rcases inv.step_refilled fits.1 small empty result before with ⟨f, stepped⟩
  have ret : checkRet chunk = .returned chunk := if_neg facts.nonzero
  have got : (Call.allocate T n).got (.returned chunk) = Option.some ⟨T, n, chunk⟩ := if_neg fits.1
  rw [ret, got] at granted ⊢
  have live : ⟨T, n, chunk⟩ :: q.live = (⟨T, n, chunk⟩ : Block) :: s.inUse := by rw [coh.live]
  have requests : (World.threadedPool pool' (classOf (n * T.size)) chunk nobjs).requests =
      pool'.requests := by
    unfold World.threadedPool
    split_ifs <;> rfl
  rcases coh.serve { s with
    pool := pool'.withFlags s.pool.forceNew, inUse := ⟨T, n, chunk⟩ :: s.inUse } stepped
    True.intro live requests granted with ⟨serves, A', inv'⟩
  have fresh : ⟨T, n, chunk⟩ ∉ s.inUse := by
    have nodup := inv'.nodup_live
    rw [live] at nodup
    exact (List.nodup_cons.mp nodup).1
  refine ⟨_, serves, ?_⟩
  by_cases one : nobjs = 1
  · rw [if_pos one]
    refine coh.inside rfl rfl under rfl True.intro ⟨A', inv'⟩ live coh.flags ?_ True.intro
      ⟨_, owned.gain fresh none rfl got rfl rfl⟩
    simp only [World.threadedPool, if_pos one]
    rfl
  · rw [if_neg one]
    have handed : (Pc.heading T n chunk nobjs).carries = Option.some ⟨T, n, chunk⟩ := by
      rw [Pc.carries, ret, got]
    refine coh.inside rfl rfl under rfl ⟨fits, ?_⟩ ⟨A', inv'⟩ live coh.flags ?_ ⟨by omega, ?_⟩
      ⟨_, owned.gain fresh none rfl handed rfl rfl⟩
    · rw [Call.bytes, SizeT.mul_eq fits.2]
      exact small
    · simp only [World.threadedPool, if_neg one, Pc.finish, size,
        getFreeList_classSize (classOf_lt small)]
      rfl
    · -- the new block is the first of the chunk
      rw [size]
      refine (facts.within (World.within_tail some)).congr fun b member => ?_
      rcases List.mem_cons.mp member with rfl | old
      · have span : Block.span ⟨T, n, chunk⟩ = ⟨chunk, classSize (classOf (n * T.size))⟩ :=
          Block.span_of_pooled (b := ⟨T, n, chunk⟩) small fits.1
        rw [span]
        exact .inr (Interval.Apart.separate (Or.inr (le_refl _)))
      · exact .inl (coh.live ▸ old)

/-! ### The lines after the effect -/

/-- The list of the new blocks gets its head. -/
theorem heads (coh : s.Coherent q) {T : ElemType} {n chunk nobjs : Nat}
    (at_t : s.pc t = .heading T n chunk nobjs) :
    State.Coherent
      { s.goto t (.linking T n chunk nobjs 1 (SizeT.add chunk (objSize T n))) with
        pool := { s.pool with
          freeList := Function.update s.pool.freeList (getFreeList (objSize T n))
            (SizeT.add chunk (objSize T n)) } } q := by
  have static := coh.static t
  have under : (s.pc t).inside = true := by rw [at_t]; rfl
  have critical := coh.critical
  have mirror := coh.mirror
  rw [coh.holder_eq under, at_t] at critical mirror
  rw [at_t] at static
  rcases critical with ⟨many, tail⟩
  rcases coh.owned with ⟨place, owned⟩
  have next : SizeT.add chunk (objSize T n) = chunk + objSize T n :=
    SizeT.add_eq ((Nat.le_add_right _ _).trans_lt tail.bound)
  rw [next]
  exact coh.inside rfl rfl under rfl static coh.valid coh.live coh.flags mirror
    ⟨many, tail.congr fun b member => .inl member⟩ ⟨place, owned.keep rfl (by rw [at_t]; rfl) rfl rfl⟩

/-- A turn of the loop links an object to the next one. -/
theorem turn (coh : s.Coherent q) {T : ElemType} {n chunk nobjs i currentObj : Nat}
    (at_t : s.pc t = .linking T n chunk nobjs i currentObj) (more : nobjs - 1 ≠ i) :
    State.Coherent
      { s.goto t (.linking T n chunk nobjs (i + 1) (SizeT.add currentObj (objSize T n))) with
        pool := { s.pool with
          machine := s.pool.machine.storePtr currentObj
            (SizeT.add currentObj (objSize T n)) } } q := by
  have static := coh.static t
  have under : (s.pc t).inside = true := by rw [at_t]; rfl
  have critical := coh.critical
  have mirror := coh.mirror
  rw [coh.holder_eq under, at_t] at critical mirror
  rw [at_t] at static
  rcases critical with ⟨inside, rest⟩
  rcases coh.owned with ⟨place, owned⟩
  have tail := rest.within (World.within_tail (Nat.sub_pos_of_lt inside))
  have next : SizeT.add currentObj (objSize T n) = currentObj + objSize T n :=
    SizeT.add_eq ((Nat.le_add_right _ _).trans_lt tail.bound)
  have turns : nobjs - 1 - i = nobjs - 1 - (i + 1) + 1 := by omega
  rw [next]
  refine coh.inside rfl rfl under rfl static coh.valid coh.live coh.flags ?_
    ⟨by omega, tail.congr fun b member => .inl member⟩
    ⟨place, owned.keep rfl (by rw [at_t]; rfl) rfl rfl⟩
  simp only [Pc.finish, turns] at mirror
  exact mirror

/-- The last turn ends the list. -/
theorem last (coh : s.Coherent q) {T : ElemType} {n chunk nobjs i currentObj : Nat}
    (at_t : s.pc t = .linking T n chunk nobjs i currentObj) (last : nobjs - 1 = i) :
    State.Coherent
      { s.goto t (.unlocking (.allocate T n) (checkRet chunk)) with
        pool := { s.pool with machine := s.pool.machine.storePtr currentObj 0 } } q := by
  have under : (s.pc t).inside = true := by rw [at_t]; rfl
  have mirror := coh.mirror
  rw [coh.holder_eq under, at_t] at mirror
  rcases coh.owned with ⟨place, owned⟩
  refine coh.inside rfl rfl under rfl True.intro coh.valid coh.live coh.flags ?_ True.intro
    ⟨place, owned.keep rfl (by rw [at_t]; rfl) rfl rfl⟩
  simp only [Pc.finish, last, Nat.sub_self] at mirror
  exact mirror

/-- The block given back heads its list. -/
theorem push (coh : s.Coherent q) {T : ElemType} {p n : Nat} (at_t : s.pc t = .pushing T p n) :
    State.Coherent
      { s.goto t (.unlocking (.deallocate T p n) .done) with
        pool := { s.pool with
          freeList := Function.update s.pool.freeList
            (getFreeList (Call.deallocate T p n).bytes) p } } q := by
  have under : (s.pc t).inside = true := by rw [at_t]; rfl
  have mirror := coh.mirror
  rw [coh.holder_eq under, at_t] at mirror
  rcases coh.owned with ⟨place, owned⟩
  exact coh.inside rfl rfl under rfl True.intro coh.valid coh.live coh.flags mirror True.intro
    ⟨place, owned.keep rfl (by rw [at_t]; rfl) rfl rfl⟩

/-! ### Writes -/

omit [DecidableEq τ] in
/-- The lines left to run write no memory, or they thread objects that no block in use
meets. -/
theorem finish_cases (coh : s.Coherent q) :
    (∀ m, s.holder.finish { s.pool with machine := m } =
      { s.holder.finish s.pool with machine := m }) ∨
      ∃ size n p, 0 + pointerSize ≤ size ∧
        s.world.Chunk s.pool.regions ⟨p, (n + 1) * size⟩ ∧
        ∀ m, s.holder.finish { s.pool with machine := m } =
          { s.holder.finish s.pool with machine := threaded 0 size n p m } := by
  have critical := coh.critical
  have static : s.holder.Static := by
    unfold holder
    cases s.mutex with
    | none => exact True.intro
    | some t => exact coh.static t
  have room : ∀ {T : ElemType} {n : Nat}, (Call.allocate T n).Fits →
      (Call.allocate T n).bytes ≤ maxBytes → 0 + pointerSize ≤ objSize T n := by
    intro T n fits small
    rw [(fits.small small).2.2.1]
    exact (Nat.zero_add _).trans_le (pointerSize_le_classSize _)
  generalize s.holder = pc at critical static
  cases pc with
  | heading T n chunk nobjs =>
    rcases critical with ⟨many, tail⟩
    have count : nobjs - 1 = nobjs - 2 + 1 := by omega
    rw [count] at tail
    exact .inr ⟨_, _, _, room static.1 static.2, tail, fun _ => rfl⟩
  | linking T n chunk nobjs i currentObj =>
    rcases critical with ⟨more, rest⟩
    have count : nobjs - i = nobjs - 1 - i + 1 := by omega
    rw [count] at rest
    exact .inr ⟨_, _, _, room static.1 static.2, rest, fun _ => rfl⟩
  | _ => exact .inl fun _ => rfl

omit [DecidableEq τ] in
/-- A byte of a block in use and the lines left to run, in either order. -/
theorem finish_writeByte (coh : s.Coherent q) {b : Block} {a : Nat} {v : UInt8}
    (used : b ∈ s.inUse) (inside : a ∈ b.span) :
    s.holder.finish { s.pool with machine := s.pool.machine.writeByte a v } =
      { s.holder.finish s.pool with
        machine := (s.holder.finish s.pool).machine.writeByte a v } := by
  rcases coh.finish_cases with plain | ⟨size, n, p, room, chunk, threads⟩
  · have machine := congrArg Pool.machine (plain s.pool.machine)
    rw [plain, machine]
  · have machine := congrArg Pool.machine (threads s.pool.machine)
    have outside : a ∉ Interval.mk p ((n + 1) * size) := fun among =>
      chunk.separate b used a among inside
    rw [threads, threaded_writeByte _ room outside, machine]

omit [DecidableEq τ] in
/-- The blocks in use have the bytes that they have in the sequential run. -/
theorem agree (coh : s.Coherent q) {b : Block} (used : b ∈ s.inUse) :
    Machine.AgreeOn b.span s.pool.machine q.pool.machine := by
  have mirror := congrArg Pool.machine coh.mirror
  change Machine.AgreeOn b.span s.pool.machine (q.pool.withFlags s.pool.forceNew).machine
  rw [← mirror]
  rcases coh.finish_cases with plain | ⟨size, n, p, room, chunk, threads⟩
  · rw [plain s.pool.machine]
    exact .refl _ _
  · rw [threads s.pool.machine]
    exact agreeOn_threaded _ room (chunk.separate b used)

omit [DecidableEq τ] in
/-- A client writes a byte into a block that it holds. -/
theorem write (coh : s.Coherent q) {a : Nat} {v : UInt8}
    (held : ∃ b ∈ s.held, a ∈ b.span) (granted : Granted (s.world.direct ++ s.pool.regions)) :
    ∃ q', Serves q (.write a v) .done q' ∧ State.Coherent
      { s with pool := { s.pool with machine := s.pool.machine.writeByte a v } } q' := by
  rcases coh.owned with ⟨place, owned⟩
  rcases held with ⟨b, member, inside⟩
  have used : b ∈ s.inUse := by
    rw [owned.inUse, (owned.held b).mp member]
    nofun
  have live : b ∈ q.live := coh.live.symm ▸ used
  have stepped : q.step (.write a v) = ((q.step (.write a v)).1, .done) := rfl
  rcases coh.serve s stepped ⟨b, live, inside⟩ coh.live coh.requests granted with
    ⟨serves, A, inv'⟩
  refine ⟨_, serves, ⟨A, inv'⟩, coh.live, ?_, coh.flags, coh.mutex, coh.static,
    coh.critical.congr rfl rfl fun b member => .inl member, place,
    owned.congr rfl rfl fun _ => rfl⟩
  refine (coh.finish_writeByte used inside).trans ?_
  rw [coh.mirror]
  rfl

end Coherent

end State

end TorchTest.PoolAlloc.Threads
