import DasEdge.Sdccp.BfifoLock
import Mathlib.Data.List.FinRange

/-!
# File descriptors of byte fifos

The table of `bfifo.c` whose entries pair two fifos, one to read from and one to write to. Its calls
hold the mutex of the table, so a run takes them one after another. A fifo is named by its place in
memory. Every allocation takes a place that no fifo is at, or fails. A size is not negative: for a
negative one `bfifo_create` asks for less memory than the fields of a fifo take. What an fd stands
for is said by a second machine, in which each open fd has two fifos of its own.
-/

namespace DasEdge.Sdccp

open DasEdge.Library

/-- `BFIFO_MAX_FD` -/
def bfifoMaxFd : ℕ := 1024

/-- `O_NONBLOCK` -/
def oNonblock : UInt32 := 0o4000

/-- A size that is passed to `bfifo_open`. -/
abbrev FdSize := { size : ℕ // size < 2 ^ 31 }

/-- The two fifos of an entry. -/
inductive FdSide where
  | inFifo
  | outFifo
  deriving DecidableEq

/-- `struct _bfifo_node` -/
structure BfifoNode where
  fifo : FdSide → ℕ
  flag : UInt32

/-- The fifos in memory. -/
abbrev FifoMemory := ℕ → Option (SharedFifo Unit)

/-- `s_bfifos` and the memory. -/
structure FdTable where
  bfifos : Fin bfifoMaxFd → Option BfifoNode
  memory : FifoMemory

/-- What the allocations for one fifo give: a place, what is in the memory there, and whether there
is more for the mutex and the conditions. -/
structure FifoRoom where
  place : FifoMemory → Option ℕ
  fresh : ∀ memory a, place memory = some a → memory a = none
  bytes : ℕ → UInt8
  lock : Bool
  cNotEmpty : Bool
  cNotFull : Bool

/-- The calls on file descriptors. -/
inductive FdOp where
  | openFd (size : FdSize) (flag : UInt32) (node : Bool) (room : FdSide → FifoRoom)
  | close (fd : ℤ)
  | read (fd : ℤ) (count : UInt32)
  | pushIn (fd : ℤ) (buffer : CallerBuffer)
  | write (fd : ℤ) (buffer : CallerBuffer)
  | pullOut (fd : ℤ) (count : UInt32)
  | getInFifo (fd : ℤ)
  | getOutFifo (fd : ℤ)

/-- What a call shows: an fd, or -1 from `bfifo_open`; a call of the fifo; -1 with the error
`EBADF`; 0 from `bfifo_close`; a pointer. -/
inductive FdOut where
  | opened (fd : ℤ)
  | fifoCall (out : FifoOut)
  | badFd
  | closed
  | fifo (f : Option ℕ)

/-- `__get_free_bfifo_node` -/
@[irreducible]
def getFreeBfifoNode (s : FdTable) : Option (Fin bfifoMaxFd) :=
  (List.finRange bfifoMaxFd).find? fun i => (s.bfifos i).isNone

/-- `__get_bfifo_node` -/
def getBfifoNode (s : FdTable) (fd : ℤ) : Option BfifoNode :=
  if h : 0 ≤ fd ∧ fd < bfifoMaxFd then s.bfifos ⟨fd.toNat, by omega⟩ else none

/-- `bfifo_init` in new memory. -/
def initFifo (room : FifoRoom) (size : ℕ) : SharedFifo Unit where
  fifo := bfifoCreate size.toUInt32 ((List.range size).map room.bytes)
  lock := room.lock
  cNotEmpty := room.cNotEmpty
  cNotFull := room.cNotFull
  waiting := fun _ => none

/-- `bfifo_create` -/
def createFifo (memory : FifoMemory) (room : FifoRoom) (size : ℕ) : Option ℕ × FifoMemory :=
  match room.place memory with
  | none => (none, memory)
  | some a => (some a, Function.update memory a (some (initFifo room size)))

/-- `bfifo_destroy` -/
def destroyFifo (memory : FifoMemory) : Option ℕ → FifoMemory
  | none => memory
  | some a => Function.update memory a none

/-- The two places of an entry. -/
def fdPlaces (inPlace outPlace : ℕ) : FdSide → ℕ
  | .inFifo => inPlace
  | .outFifo => outPlace

/-- `bfifo_open` -/
def bfifoOpen (s : FdTable) (size : ℕ) (flag : UInt32) (node : Bool) (room : FdSide → FifoRoom) :
    FdOut × FdTable :=
  match getFreeBfifoNode s with
  | none => (.opened (-1), s)
  | some fd =>
    if node then
      let inMade := createFifo s.memory (room .inFifo) size
      let outMade := createFifo inMade.2 (room .outFifo) size
      match inMade.1, outMade.1 with
      | some a, some b =>
        (.opened fd, { bfifos := Function.update s.bfifos fd (some ⟨fdPlaces a b, flag⟩), memory := outMade.2 })
      | _, _ => (.opened (-1),
        { s with memory := destroyFifo (destroyFifo outMade.2 inMade.1) outMade.1 })
    else (.opened (-1), s)

/-- `bfifo_close` -/
def bfifoClose (s : FdTable) (fd : ℤ) : FdOut × FdTable :=
  match getBfifoNode s fd with
  | none => (.badFd, s)
  | some bf =>
    (.closed, {
      bfifos := fun i => if (i : ℤ) = fd then none else s.bfifos i
      memory := destroyFifo (destroyFifo s.memory (bf.fifo .inFifo)) (bf.fifo .outFifo) })

/-- The timeout of a call by an fd. -/
def fdTimeout (flag : UInt32) : ℤ := if flag ||| oNonblock ≠ 0 then 0 else -1

/-- A call by an fd on one of its fifos. There is none on memory that has been given back. -/
def fdCall (s : FdTable) (fd : ℤ) (side : FdSide) (call : ℤ → FifoCall) : Option (FdOut × FdTable) :=
  match getBfifoNode s fd with
  | none => some (.badFd, s)
  | some bf =>
    (s.memory (bf.fifo side)).bind fun f =>
      (sharedStep (some f) (.call () (call (fdTimeout bf.flag)))).map fun r =>
        (.fifoCall r.1, { s with memory := Function.update s.memory (bf.fifo side) r.2 })

/-- `bfifo_read` -/
def bfifoRead (s : FdTable) (fd : ℤ) (count : UInt32) : Option (FdOut × FdTable) :=
  fdCall s fd .inFifo (.pull count)

/-- `bfifo_push_in` -/
def bfifoPushIn (s : FdTable) (fd : ℤ) (buffer : CallerBuffer) : Option (FdOut × FdTable) :=
  fdCall s fd .inFifo (.push buffer)

/-- `bfifo_write` -/
def bfifoWrite (s : FdTable) (fd : ℤ) (buffer : CallerBuffer) : Option (FdOut × FdTable) :=
  fdCall s fd .outFifo (.push buffer)

/-- `bfifo_pull_out` -/
def bfifoPullOut (s : FdTable) (fd : ℤ) (count : UInt32) : Option (FdOut × FdTable) :=
  fdCall s fd .outFifo (.pull count)

/-- `bfifo_get_in_fifo` and `bfifo_get_out_fifo`, which declare an `fd` of their own over their
argument. -/
def getFifo (s : FdTable) (side : FdSide) (_fd : ℤ) : FdOut × FdTable :=
  match getFreeBfifoNode s with
  | none => (.fifo none, s)
  | some fd => (.fifo ((getBfifoNode s fd).map fun bf => bf.fifo side), s)

/-- `bfifo_get_in_fifo` -/
def bfifoGetInFifo (s : FdTable) (fd : ℤ) : FdOut × FdTable := getFifo s .inFifo fd

/-- `bfifo_get_out_fifo` -/
def bfifoGetOutFifo (s : FdTable) (fd : ℤ) : FdOut × FdTable := getFifo s .outFifo fd

/-- One call. -/
def fdStep (s : FdTable) : FdOp → Option (FdOut × FdTable)
  | .openFd size flag node room => some (bfifoOpen s size.1 flag node room)
  | .close fd => some (bfifoClose s fd)
  | .read fd count => bfifoRead s fd count
  | .pushIn fd buffer => bfifoPushIn s fd buffer
  | .write fd buffer => bfifoWrite s fd buffer
  | .pullOut fd count => bfifoPullOut s fd count
  | .getInFifo fd => some (bfifoGetInFifo s fd)
  | .getOutFifo fd => some (bfifoGetOutFifo s fd)

/-- No fd is open yet. -/
def fdStart : FdTable where
  bfifos := fun _ => none
  memory := fun _ => none

/-! ## What a file descriptor stands for -/

/-- The fifos of an open fd, with their places. -/
abbrev FdPair := FdSide → ℕ × Option (SharedFifo Unit)

/-- The open fds. -/
abbrev Fds := ℤ → Option FdPair

/-- A new pair: two empty fifos at places of their own. -/
structure NewPair (t : Fds) (size : ℕ) (pair : FdPair) : Prop where
  own : (pair .inFifo).1 ≠ (pair .outFifo).1
  unused : ∀ fd other side side', t fd = some other → (other side).1 ≠ (pair side').1
  empty : ∀ side, ∃ f, (pair side).2 = some f ∧ f.fifo.inPos = f.fifo.outPos ∧
    f.fifo.size = size.toUInt32

/-- A call by an fd acts on the fifo of that fd and on no other one. -/
def FdCallSpec (t : Fds) (fd : ℤ) (side : FdSide) (call : FifoCall) (out : FdOut) (t' : Fds) : Prop :=
  match t fd with
  | none => out = .badFd ∧ t' = t
  | some pair => ∃ f o f', (pair side).2 = some f ∧
    sharedStep (some f) (.call () call) = some (o, f') ∧ out = .fifoCall o ∧
    t' = Function.update t fd (some (Function.update pair side ((pair side).1, f')))

/-- What a call does to the open fds. -/
def FdSpec (t : Fds) (op : FdOp) (out : FdOut) (t' : Fds) : Prop :=
  match op with
  | .openFd size _ _ _ =>
    (out = .opened (-1) ∧ t' = t) ∨ ∃ fd pair, 0 ≤ fd ∧ t fd = none ∧ NewPair t size.1 pair ∧
      out = .opened fd ∧
      t' = Function.update t fd (some pair)
  | .close fd =>
    match t fd with
    | none => out = .badFd ∧ t' = t
    | some _ => out = .closed ∧ t' = Function.update t fd none
  | .read fd count => FdCallSpec t fd .inFifo (.pull count 0) out t'
  | .pushIn fd buffer => FdCallSpec t fd .inFifo (.push buffer 0) out t'
  | .write fd buffer => FdCallSpec t fd .outFifo (.push buffer 0) out t'
  | .pullOut fd count => FdCallSpec t fd .outFifo (.pull count 0) out t'
  | .getInFifo fd => out = .fifo ((t fd).map fun pair => (pair .inFifo).1) ∧ t' = t
  | .getOutFifo fd => out = .fifo ((t fd).map fun pair => (pair .outFifo).1) ∧ t' = t

/-- The fds that are open in the table. -/
def fdsOf (s : FdTable) : Fds :=
  fun fd => (getBfifoNode s fd).map fun bf side => (bf.fifo side, s.memory (bf.fifo side))

/-- A getter is asked for an fd that is not open. -/
def AsksClosed (s : FdTable) : FdOp → Prop
  | .getInFifo fd => fdsOf s fd = none
  | .getOutFifo fd => fdsOf s fd = none
  | _ => True

/-! ## The fifos behind the table -/

/-- A fifo that nobody holds or waits at, and that is empty if it has no room at all. -/
structure FifoSound (f : SharedFifo Unit) : Prop where
  free : f.fifo.lock = false
  sized : f.fifo.size = 0 → f.fifo.inPos = f.fifo.outPos
  idle : f.waiting () = none

/-- A call by an fd never waits. -/
theorem fdTimeout_eq (flag : UInt32) : fdTimeout flag = 0 := by
  rw [fdTimeout, if_pos]
  intro h
  have hbit : oNonblock = 0 := (UInt32.or_eq_zero_iff.mp h).2
  cases hbit

/-- A call that does not wait. -/
theorem fifoWaitCall_zero {ι : Type*} [DecidableEq ι] (s : SharedFifo ι) (t : ι) (hold cond : Bool)
    (wait : FifoWait) (f : Bfifo) :
    fifoWaitCall s t hold cond 0 wait f = (wait.rest f !hold).map fun r =>
      (r.1, { s with fifo := r.2 }) := by
  cases hold <;> rfl

/-- The calls that fds make. -/
def FdFifoCall (call : FifoCall) : Prop := (∃ buffer, call = .push buffer 0) ∨ ∃ len, call = .pull len 0

/-- What a call does behind its wait leaves the size, and on a fifo of size 0 also the positions. -/
theorem FifoWait.rest_size {f : Bfifo} {flag : Bool} {wait : FifoWait} {r : FifoOut × Bfifo}
    (h : wait.rest f flag = some r) :
    r.2.size = f.size ∧ (f.size = 0 → r.2.inPos = f.inPos ∧ r.2.outPos = f.outPos) := by
  cases wait with
  | pushWait | pullWait =>
    cases h
    exact ⟨rfl, fun _ => ⟨rfl, rfl⟩⟩
  | push buffer =>
    rw [FifoWait.rest, bfifoPushRest] at h
    split at h
    · split at h
      · cases h
      · next hsize =>
        cases h
        exact ⟨rfl, fun hzero => absurd hzero hsize⟩
    · cases h
      exact ⟨rfl, fun _ => ⟨rfl, rfl⟩⟩
  | pull len =>
    rw [FifoWait.rest, bfifoPullRest] at h
    split at h
    · split at h
      · cases h
      · next hsize =>
        cases h
        exact ⟨rfl, fun hzero => absurd hzero hsize⟩
    · cases h
      exact ⟨rfl, fun _ => ⟨rfl, rfl⟩⟩

/-- A call that an fd makes is what follows its wait, with a flag that is not set on a fifo of size
0. -/
theorem lockedRest_fdFifoCall {s : SharedFifo Unit} {f : Bfifo} {call : FifoCall}
    (hcall : FdFifoCall call)
    (hsized : f.size = 0 → f.inPos = f.outPos) :
    ∃ (wait : FifoWait) (flag : Bool), (f.size = 0 → flag = false) ∧
      lockedRest s () f call = (wait.rest f flag).map fun r => (r.1, { s with fifo := r.2 }) := by
  rcases hcall with ⟨buffer, rfl⟩ | ⟨len, rfl⟩
  · refine ⟨.push buffer, !decide (f.size = f.inPos - f.outPos), fun hzero => ?_,
      fifoWaitCall_zero _ _ _ _ _ _⟩
    rw [hzero, hsized hzero, UInt32.sub_self]
    rfl
  · refine ⟨.pull len, !decide (f.inPos = f.outPos), fun hzero => ?_, fifoWaitCall_zero _ _ _ _ _ _⟩
    rw [hsized hzero, decide_eq_true rfl]
    rfl

/-- A call that an fd makes returns, and leaves a sound fifo sound. -/
theorem FifoSound.step {f : SharedFifo Unit} (h : FifoSound f) {call : FifoCall}
    (hcall : FdFifoCall call) :
    ∃ o f', sharedStep (some f) (.call () call) = some (o, some f') ∧ FifoSound f' := by
  rw [sharedStep, h.idle]
  simp only [Option.isSome_none, Bool.false_eq_true, if_false]
  split
  · obtain ⟨wait, flag, hflag, hrest⟩ :=
      lockedRest_fdFifoCall (s := f) (f := { f.fifo with lock := true }) hcall h.sized
    have hsome : (wait.rest { f.fifo with lock := true } flag).isSome := by
      refine FifoWait.rest_isSome fun hzero htakes => ?_
      rw [hflag hzero] at htakes
      cases wait <;> cases htakes
    obtain ⟨r, hr⟩ := Option.isSome_iff_exists.mp hsome
    obtain ⟨hsize, hpos⟩ := FifoWait.rest_size hr
    rw [lockedCall, fifoLock_free h.free, Option.bind_some, hrest, hr]
    refine ⟨r.1, { f with fifo := r.2 }, rfl, FifoWait.rest_lock hr, fun hzero => ?_, h.idle⟩
    rw [hsize] at hzero
    obtain ⟨hin, hout⟩ := hpos hzero
    rw [hin, hout]
    exact h.sized hzero
  · exact ⟨_, f, rfl, h⟩

/-! ## The table -/

/-- The fifos of the table are in memory, and no fifo belongs to two entries or to both sides of one. -/
structure FdTableSound (s : FdTable) : Prop where
  placed : ∀ i bf side, s.bfifos i = some bf → ∃ f, s.memory (bf.fifo side) = some f ∧ FifoSound f
  own : ∀ i j bf bf' side side', s.bfifos i = some bf → s.bfifos j = some bf' →
    bf.fifo side = bf'.fifo side' →
    i = j ∧ side = side'

/-- A free entry is free. -/
theorem getFreeBfifoNode_free {s : FdTable} {i : Fin bfifoMaxFd} (h : getFreeBfifoNode s = some i) :
    s.bfifos i = none := by
  unfold getFreeBfifoNode at h
  exact Option.isNone_iff_eq_none.mp (List.find?_some (p := fun i => (s.bfifos i).isNone) h)

/-- The entry of an fd. -/
@[simp]
theorem getBfifoNode_coe (s : FdTable) (i : Fin bfifoMaxFd) : getBfifoNode s (i : ℤ) = s.bfifos i := by
  have hrange : (0 : ℤ) ≤ i ∧ (i : ℤ) < bfifoMaxFd := by omega
  rw [getBfifoNode, dif_pos hrange]
  rfl

/-- An fd that has an entry is its number. -/
theorem getBfifoNode_eq_some {s : FdTable} {fd : ℤ} {bf : BfifoNode} (h : getBfifoNode s fd = some bf) :
    ∃ i : Fin bfifoMaxFd, fd = i ∧ s.bfifos i = some bf := by
  rw [getBfifoNode] at h
  split at h
  · next hrange => exact ⟨⟨fd.toNat, by omega⟩, (Int.toNat_of_nonneg hrange.1).symm, h⟩
  · cases h

/-- Both getters always return a null pointer: the entry that they read is a free one. -/
theorem getFifo_eq (s : FdTable) (side : FdSide) (fd : ℤ) : getFifo s side fd = (.fifo none, s) := by
  cases hfree : getFreeBfifoNode s with
  | none => simp only [getFifo, hfree]
  | some i => simp only [getFifo, hfree, getBfifoNode_coe, getFreeBfifoNode_free hfree, Option.map_none]

/-- What an fd stands for. -/
theorem fdsOf_coe (s : FdTable) (i : Fin bfifoMaxFd) :
    fdsOf s i = (s.bfifos i).map fun bf side => (bf.fifo side, s.memory (bf.fifo side)) := by
  rw [fdsOf, getBfifoNode_coe]

/-- A number without an entry stands for nothing. -/
theorem fdsOf_invalid (s : FdTable) {fd : ℤ} (h : ∀ i : Fin bfifoMaxFd, fd ≠ i) :
    fdsOf s fd = none := by
  rw [fdsOf, Option.map_eq_none_iff]
  cases hnode : getBfifoNode s fd with
  | none => rfl
  | some bf =>
    obtain ⟨i, hi, -⟩ := getBfifoNode_eq_some hnode
    exact absurd hi (h i)

/-- An entry is written: the other fds stand for what they stood for if their fifos did not change. -/
theorem fdsOf_update {s s' : FdTable} {i : Fin bfifoMaxFd} {x : Option FdPair} (hi : fdsOf s' i = x)
    (hothers : ∀ j, j ≠ i → s'.bfifos j = s.bfifos j ∧
      ∀ bf side, s.bfifos j = some bf → s'.memory (bf.fifo side) = s.memory (bf.fifo side)) :
    fdsOf s' = Function.update (fdsOf s) i x := by
  funext fd
  by_cases hvalid : ∃ j : Fin bfifoMaxFd, fd = j
  · obtain ⟨j, rfl⟩ := hvalid
    by_cases hij : j = i
    · rw [hij, hi, Function.update_self]
    · have hfd : (j : ℤ) ≠ i := fun heq => hij (Fin.ext (by exact_mod_cast heq))
      obtain ⟨hsame, hmemory⟩ := hothers j hij
      rw [Function.update_of_ne hfd, fdsOf_coe, fdsOf_coe, hsame]
      cases hj : s.bfifos j with
      | none => rfl
      | some bf => exact congrArg some (funext fun side => congrArg (Prod.mk _) (hmemory bf side hj))
  · have hall : ∀ j : Fin bfifoMaxFd, fd ≠ j := fun j hj => hvalid ⟨j, hj⟩
    rw [Function.update_of_ne (hall i), fdsOf_invalid s' hall, fdsOf_invalid s hall]

/-- A new fifo is sound. -/
theorem initFifo_sound (room : FifoRoom) (size : ℕ) : FifoSound (initFifo room size) :=
  ⟨rfl, fun _ => rfl, rfl⟩

/-- A new fifo is at a place where there was none. -/
theorem createFifo_some {memory : FifoMemory} {room : FifoRoom} {size a : ℕ}
    (h : (createFifo memory room size).1 = some a) :
    memory a = none ∧ (createFifo memory room size).2 =
      Function.update memory a (some (initFifo room size)) := by
  rw [createFifo] at h ⊢
  split at h
  · cases h
  · next hplace =>
    cases h
    exact ⟨room.fresh memory a hplace, rfl⟩

/-- No memory is taken by a fifo that could not be made. -/
theorem createFifo_none {memory : FifoMemory} {room : FifoRoom} {size : ℕ}
    (h : (createFifo memory room size).1 = none) :
    (createFifo memory room size).2 = memory := by
  rw [createFifo] at h ⊢
  split at h
  · rfl
  · cases h

/-- A new fifo that is destroyed leaves the memory as it was. -/
theorem destroyFifo_createFifo (memory : FifoMemory) (room : FifoRoom) (size : ℕ) :
    destroyFifo (createFifo memory room size).2 (createFifo memory room size).1 = memory := by
  cases hmade : (createFifo memory room size).1 with
  | none => exact createFifo_none hmade
  | some a =>
    obtain ⟨hnone, hmemory⟩ := createFifo_some hmade
    rw [hmemory, destroyFifo, Function.update_idem, ← hnone, Function.update_eq_self]

/-- A call by an fd acts on its own fifo. -/
theorem fdCall_right {s : FdTable} (hs : FdTableSound s) (fd : ℤ) (side : FdSide) (call : ℤ → FifoCall)
    (hcall : FdFifoCall (call 0)) : ∃ o s', fdCall s fd side call = some (o, s') ∧ FdTableSound s' ∧
      FdCallSpec (fdsOf s) fd side (call 0) o (fdsOf s') := by
  cases hnode : getBfifoNode s fd with
  | none =>
    refine ⟨.badFd, s, by simp only [fdCall, hnode], hs, ?_⟩
    simp only [FdCallSpec, fdsOf, hnode, Option.map_none, and_self]
  | some bf =>
    obtain ⟨i, rfl, hi⟩ := getBfifoNode_eq_some hnode
    obtain ⟨f, hf, hsound⟩ := hs.placed i bf side hi
    obtain ⟨o, f', hstep, hsound'⟩ := hsound.step hcall
    refine ⟨.fifoCall o, { s with memory := Function.update s.memory (bf.fifo side) (some f') }, ?_,
      ⟨?_, hs.own⟩, ?_⟩
    · simp only [fdCall, hnode, hf, Option.bind_some, fdTimeout_eq, hstep, Option.map_some]
    · intro j bf' side' hj
      by_cases hplace : bf'.fifo side' = bf.fifo side
      · exact ⟨f', by rw [hplace]; exact Function.update_self _ _ _, hsound'⟩
      · obtain ⟨g, hg, hgsound⟩ := hs.placed j bf' side' hj
        exact ⟨g, (Function.update_of_ne hplace _ _).trans hg, hgsound⟩
    · rw [FdCallSpec, fdsOf_coe, hi]
      refine ⟨f, o, some f', hf, hstep, rfl, fdsOf_update ?_ fun j hij => ⟨rfl, fun bf' side' hj => ?_⟩⟩
      · rw [fdsOf_coe, hi]
        refine congrArg some (funext fun side' => ?_)
        by_cases hside : side' = side
        · subst hside
          simp
        · have hplace : bf.fifo side' ≠ bf.fifo side :=
            fun heq => hside (hs.own i i bf bf side' side hi hi heq).2
          simp [hside, hplace]
      · exact Function.update_of_ne (fun heq => hij (hs.own j i bf' bf side' side hj hi heq).1) _ _

/-- `bfifo_close` closes its fd and no other one. -/
theorem bfifoClose_right {s : FdTable} (hs : FdTableSound s) (fd : ℤ) :
    FdTableSound (bfifoClose s fd).2 ∧
      FdSpec (fdsOf s) (.close fd) (bfifoClose s fd).1 (fdsOf (bfifoClose s fd).2) := by
  cases hnode : getBfifoNode s fd with
  | none =>
    simp only [bfifoClose, hnode, FdSpec, fdsOf, Option.map_none, and_self, and_true]
    exact hs
  | some bf =>
    obtain ⟨i, rfl, hi⟩ := getBfifoNode_eq_some hnode
    have hentry : ∀ j, (bfifoClose s i).2.bfifos j = if j = i then none else s.bfifos j := by
      intro j
      simp only [bfifoClose, hnode, Int.natCast_inj, Fin.val_inj]
    -- Both places belong to the entry that is closed, so that the fifos of the others stay where
    -- they are.
    have hmemory : ∀ j bf' side, j ≠ i → s.bfifos j = some bf' →
        (bfifoClose s i).2.memory (bf'.fifo side) = s.memory (bf'.fifo side) := by
      intro j bf' side hij hj
      have hin : bf'.fifo side ≠ bf.fifo .inFifo :=
        fun heq => hij (hs.own j i bf' bf side .inFifo hj hi heq).1
      have hout : bf'.fifo side ≠ bf.fifo .outFifo :=
        fun heq => hij (hs.own j i bf' bf side .outFifo hj hi heq).1
      simp only [bfifoClose, hnode, destroyFifo, Function.update_of_ne hout, Function.update_of_ne hin]
    have hkept : ∀ j bf', (bfifoClose s i).2.bfifos j = some bf' → j ≠ i ∧ s.bfifos j = some bf' := by
      intro j bf' hj
      rw [hentry] at hj
      split at hj
      · cases hj
      · next hij => exact ⟨hij, hj⟩
    refine ⟨⟨fun j bf' side hj => ?_, fun j k bf' bf'' side side' hj hk => ?_⟩, ?_⟩
    · obtain ⟨hij, hj⟩ := hkept j bf' hj
      rw [hmemory j bf' side hij hj]
      exact hs.placed j bf' side hj
    · exact hs.own j k bf' bf'' side side' (hkept j bf' hj).2 (hkept k bf'' hk).2
    · have hopen : fdsOf s i = some fun side => (bf.fifo side, s.memory (bf.fifo side)) := by
        rw [fdsOf_coe, hi]; rfl
      rw [FdSpec, hopen]
      refine ⟨by simp only [bfifoClose, hnode],
        fdsOf_update ?_ fun j hij => ⟨?_, fun bf' side hj => ?_⟩⟩
      · rw [fdsOf_coe, hentry, if_pos rfl, Option.map_none]
      · rw [hentry, if_neg hij]
      · exact hmemory j bf' side hij hj

/-- What `bfifo_open` makes of the two allocations, which did not both succeed, is given back. -/
theorem destroyFifo_both (memory : FifoMemory) (room : FdSide → FifoRoom) (size : ℕ)
    (h : ∀ a b, (createFifo memory (room .inFifo) size).1 = some a →
      (createFifo (createFifo memory (room .inFifo) size).2 (room .outFifo) size).1 ≠ some b) :
    destroyFifo (destroyFifo (createFifo (createFifo memory (room .inFifo) size).2
      (room .outFifo) size).2
      (createFifo memory (room .inFifo) size).1)
      (createFifo (createFifo memory (room .inFifo) size).2 (room .outFifo) size).1 = memory := by
  cases hin : (createFifo memory (room .inFifo) size).1 with
  | none =>
    rw [destroyFifo, destroyFifo_createFifo]
    exact createFifo_none hin
  | some a =>
    cases hout : (createFifo (createFifo memory (room .inFifo) size).2 (room .outFifo) size).1 with
    | some b => exact absurd hout (h a b hin)
    | none =>
      have hback := destroyFifo_createFifo memory (room .inFifo) size
      rw [hin] at hback
      rw [createFifo_none hout, hback, destroyFifo]

/-- The places of the open fds hold fifos. -/
theorem FdTableSound.place_ne {s : FdTable} (hs : FdTableSound s) {i : Fin bfifoMaxFd}
    {bf : BfifoNode} {side : FdSide} {a : ℕ}
    (hi : s.bfifos i = some bf) (ha : s.memory a = none) : bf.fifo side ≠ a := by
  obtain ⟨f, hf, -⟩ := hs.placed i bf side hi
  rintro rfl
  rw [hf] at ha
  cases ha

/-- A free entry gets two new fifos. -/
theorem fdTable_open {s : FdTable} (hs : FdTableSound s) {i : Fin bfifoMaxFd}
    (hi : s.bfifos i = none) {a b : ℕ}
    (ha : s.memory a = none) (hb : s.memory b = none) (hab : a ≠ b) (room : FdSide → FifoRoom)
    (size : ℕ) (flag : UInt32) :
    let s' : FdTable := {
      bfifos := Function.update s.bfifos i (some ⟨fdPlaces a b, flag⟩)
      memory := Function.update (Function.update s.memory a (some (initFifo (room .inFifo) size))) b
        (some (initFifo (room .outFifo) size)) }
    FdTableSound s' ∧ ∃ pair, NewPair (fdsOf s) size pair ∧
      fdsOf s' = Function.update (fdsOf s) i (some pair) := by
  intro s'
  have hold : ∀ j bf side, s.bfifos j = some bf →
      s'.memory (bf.fifo side) = s.memory (bf.fifo side) := by
    intro j bf side hj
    have hat : bf.fifo side ≠ a := hs.place_ne hj ha
    have hbt : bf.fifo side ≠ b := hs.place_ne hj hb
    simp only [s', Function.update_of_ne hbt, Function.update_of_ne hat]
  have hnew : ∀ side, s'.memory (fdPlaces a b side) = some (initFifo (room side) size) := by
    intro side
    cases side with
    | inFifo => simp only [s', fdPlaces, Function.update_of_ne hab, Function.update_self]
    | outFifo => simp only [s', fdPlaces, Function.update_self]
  have hfree : ∀ side, s.memory (fdPlaces a b side) = none := by
    intro side
    cases side with
    | inFifo => exact ha
    | outFifo => exact hb
  have hsides : ∀ side side', fdPlaces a b side = fdPlaces a b side' → side = side' := by
    intro side side' heq
    cases side <;> cases side'
    · rfl
    · exact absurd heq hab
    · exact absurd heq.symm hab
    · rfl
  have hentry : ∀ j bf, s'.bfifos j = some bf → (j = i ∧ bf = ⟨fdPlaces a b, flag⟩) ∨
      (j ≠ i ∧ s.bfifos j = some bf) := by
    intro j bf hj
    by_cases hij : j = i
    · subst hij
      simp only [s', Function.update_self, Option.some_inj] at hj
      exact Or.inl ⟨rfl, hj.symm⟩
    · simp only [s', Function.update_of_ne hij] at hj
      exact Or.inr ⟨hij, hj⟩
  refine ⟨⟨fun j bf side hj => ?_, fun j k bf bf' side side' hj hk heq => ?_⟩,
    fun side => (fdPlaces a b side, some (initFifo (room side) size)), ⟨hab, ?_, fun side => ?_⟩,
      fdsOf_update ?_ ?_⟩
  · rcases hentry j bf hj with ⟨rfl, rfl⟩ | ⟨-, hj⟩
    · exact ⟨_, hnew side, initFifo_sound _ _⟩
    · rw [hold j bf side hj]
      exact hs.placed j bf side hj
  · rcases hentry j bf hj with ⟨rfl, rfl⟩ | ⟨-, holdj⟩ <;> rcases hentry k bf' hk
      with ⟨rfl, rfl⟩ | ⟨-, holdk⟩
    · exact ⟨rfl, hsides side side' heq⟩
    · exact absurd heq.symm (hs.place_ne holdk (hfree side))
    · exact absurd heq (hs.place_ne holdj (hfree side'))
    · exact hs.own j k bf bf' side side' holdj holdk heq
  · intro fd other side side' hother
    obtain ⟨bf, hbf, rfl⟩ := Option.map_eq_some_iff.mp hother
    obtain ⟨j, -, hj⟩ := getBfifoNode_eq_some hbf
    have hne : bf.fifo side ≠ _ := hs.place_ne hj (hfree side')
    exact hne
  · exact ⟨_, rfl, rfl, rfl⟩
  · rw [fdsOf_coe]
    simp only [s', Function.update_self, Option.map_some, Option.some_inj]
    exact funext fun side => congrArg (Prod.mk _) (hnew side)
  · intro j hij
    exact ⟨Function.update_of_ne hij _ _, hold j⟩

/-- `bfifo_open` opens a new fd or changes nothing. -/
theorem bfifoOpen_right {s : FdTable} (hs : FdTableSound s) (size : FdSize) (flag : UInt32)
    (node : Bool) (room : FdSide → FifoRoom) :
    FdTableSound (bfifoOpen s size.1 flag node room).2 ∧
      FdSpec (fdsOf s) (.openFd size flag node room) (bfifoOpen s size.1 flag node room).1
        (fdsOf (bfifoOpen s size.1 flag node room).2) := by
  cases hfree : getFreeBfifoNode s with
  | none =>
    simp only [bfifoOpen, hfree]
    exact ⟨hs, Or.inl ⟨rfl, rfl⟩⟩
  | some i =>
    cases node with
    | false =>
      simp only [bfifoOpen, hfree, Bool.false_eq_true, if_false]
      exact ⟨hs, Or.inl ⟨rfl, rfl⟩⟩
    | true =>
      simp only [bfifoOpen, hfree, if_true]
      split
      · next a b hin hout =>
        obtain ⟨ha, hmemory⟩ := createFifo_some hin
        obtain ⟨hb, hmemory'⟩ := createFifo_some hout
        have hab : a ≠ b := by
          rintro rfl
          rw [hmemory, Function.update_self] at hb
          cases hb
        rw [hmemory, Function.update_of_ne hab.symm] at hb
        have hi := getFreeBfifoNode_free hfree
        obtain ⟨hsound, pair, hpair, hfds⟩ := fdTable_open hs hi ha hb hab room size.1 flag
        rw [hmemory', hmemory]
        refine ⟨hsound, Or.inr ⟨i, pair, Int.natCast_nonneg _, ?_, hpair, rfl, hfds⟩⟩
        rw [fdsOf_coe, hi, Option.map_none]
      · next hfails =>
        rw [destroyFifo_both s.memory room size.1 hfails]
        exact ⟨hs, Or.inl ⟨rfl, rfl⟩⟩

/-- Every call returns, keeps the table sound, and does to the open fds what it should, unless it is
a getter for an open fd. -/
theorem fdStep_right (s : FdTable) (op : FdOp) (hs : FdTableSound s) :
    ∃ o s', fdStep s op = some (o, s') ∧ FdTableSound s' ∧
    (FdSpec (fdsOf s) op o (fdsOf s') ↔ AsksClosed s op) := by
  cases op with
  | openFd size flag node room =>
    obtain ⟨hsound, hspec⟩ := bfifoOpen_right hs size flag node room
    exact ⟨_, _, rfl, hsound, iff_of_true hspec trivial⟩
  | close fd =>
    obtain ⟨hsound, hspec⟩ := bfifoClose_right hs fd
    exact ⟨_, _, rfl, hsound, iff_of_true hspec trivial⟩
  | read fd count =>
    obtain ⟨o, s', hstep, hsound, hspec⟩ :=
      fdCall_right hs fd .inFifo (.pull count) (Or.inr ⟨count, rfl⟩)
    exact ⟨o, s', hstep, hsound, iff_of_true hspec trivial⟩
  | pushIn fd buffer =>
    obtain ⟨o, s', hstep, hsound, hspec⟩ :=
      fdCall_right hs fd .inFifo (.push buffer) (Or.inl ⟨buffer, rfl⟩)
    exact ⟨o, s', hstep, hsound, iff_of_true hspec trivial⟩
  | write fd buffer =>
    obtain ⟨o, s', hstep, hsound, hspec⟩ :=
      fdCall_right hs fd .outFifo (.push buffer) (Or.inl ⟨buffer, rfl⟩)
    exact ⟨o, s', hstep, hsound, iff_of_true hspec trivial⟩
  | pullOut fd count =>
    obtain ⟨o, s', hstep, hsound, hspec⟩ :=
      fdCall_right hs fd .outFifo (.pull count) (Or.inr ⟨count, rfl⟩)
    exact ⟨o, s', hstep, hsound, iff_of_true hspec trivial⟩
  | getInFifo fd =>
    refine ⟨.fifo none, s, by rw [fdStep, bfifoGetInFifo, getFifo_eq], hs, ?_⟩
    simp only [FdSpec, AsksClosed, FdOut.fifo.injEq, and_true]
    rw [eq_comm, Option.map_eq_none_iff]
  | getOutFifo fd =>
    refine ⟨.fifo none, s, by rw [fdStep, bfifoGetOutFifo, getFifo_eq], hs, ?_⟩
    simp only [FdSpec, AsksClosed, FdOut.fifo.injEq, and_true]
    rw [eq_comm, Option.map_eq_none_iff]

/-- In every run each open fd stands for two fifos of its own exactly when no getter is asked for an
fd that is open. -/
theorem fds_run (ops : List FdOp) :
    EveryStep fdStep (fun s op out s' => FdSpec (fdsOf s) op out (fdsOf s')) fdStart ops ↔
      GuardedRun fdStep AsksClosed fdStart ops := by
  refine everyStep_iff _ _ _ FdTableSound (fun s op => fdStep_right s op) ⟨?_, ?_⟩ ops
  · rintro i bf side ⟨⟩
  · rintro i j bf bf' side side' ⟨⟩

/-- Memory at one place, when it is free. -/
def roomAt (a : ℕ) : FifoRoom where
  place := fun memory => if (memory a).isNone then some a else none
  fresh := by
    intro memory b h
    split at h
    · next hnone =>
      cases h
      exact Option.isNone_iff_eq_none.mp hnone
    · cases h
  bytes := fun _ => 0
  lock := true
  cNotEmpty := true
  cNotFull := true

/-- The first entry is taken when it is free. -/
theorem getFreeBfifoNode_zero {s : FdTable} (h : s.bfifos ⟨0, by decide⟩ = none) :
    getFreeBfifoNode s = some ⟨0, by decide⟩ := by
  unfold getFreeBfifoNode
  obtain ⟨rest, hrange⟩ : ∃ rest : List (Fin bfifoMaxFd), List.finRange bfifoMaxFd =
    ⟨0, by decide⟩ :: rest := ⟨_, List.finRange_succ⟩
  rw [hrange, List.find?_cons, h]
  rfl

/-- The memory for the first two fifos. -/
def roomFirst (side : FdSide) : FifoRoom := roomAt (fdPlaces 0 1 side)

/-- The first fd is open, and its getter returns a null pointer. -/
theorem not_fds_getInFifo :
    ¬ EveryStep fdStep (fun s op out s' => FdSpec (fdsOf s) op out (fdsOf s')) fdStart
      [.openFd ⟨16, by decide⟩ 0 true roomFirst, .getInFifo 0] := by
  rintro ⟨o, s, hopen, -, o', s', hget, ⟨hpointer, -⟩, -⟩
  rw [fdStep, bfifoGetInFifo, getFifo_eq, Option.some_inj, Prod.mk.injEq] at hget
  obtain ⟨rfl, rfl⟩ := hget
  simp only [fdStep, bfifoOpen, getFreeBfifoNode_zero (s := fdStart) rfl] at hopen
  cases hopen
  cases hpointer

end DasEdge.Sdccp
