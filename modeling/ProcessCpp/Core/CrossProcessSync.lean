import ProcessCpp.Base.FdSlots
import ProcessCpp.Base.Transition
import ProcessCpp.Core.Pipe

/-!
# `core::testing::CrossProcessSync` (cross_process_sync.cpp)

A pipe and a counter. `try_signal_ready_for` writes a 1 of four bytes into the pipe,
`wait_for_signal_ready_for` takes one out and counts. The pipe is shared by all objects that
copying, assigning and forking make out of one; the counter is each object's own.

- `CrossProcessSync`: the class and its members, on the descriptors of one process;
- `SyncWorld`: processes with such objects, and what is in the pipes;
- `SyncStep`: a call is made of its system calls, with every outcome of `poll`, and the
  calls of all objects interleave. The objects made out of one are those with its pipe, so
  objects with other pipes may be there too, and be assigned to and from;
- `sync_signals_conserved`: what was signalled is in the pipe or was collected.

Why there is no end of file: an object has both ends of the pipe open in its own process,
so whoever reads is a writer too.
-/

namespace ProcessCpp.Core

open ProcessCpp.Base ProcessCpp.Posix

/-! ## The class -/

/-- `core::testing::CrossProcessSync`. -/
structure CrossProcessSync where
  /-- `fds[read_fd]` -/
  readFd : Option Nat
  /-- `fds[write_fd]` -/
  writeFd : Option Nat
  counter : UInt32
deriving DecidableEq, Repr

/-- `dup(2)` of any number; of `-1` it fails with `EBADF`. -/
def sysDupAny : Option Nat → FdM (Option Nat)
  | none => fun k => (.ok none, k.called)
  | some fd => sysDup fd

namespace CrossProcessSync

/-- The member `fds`. -/
def fd (c : CrossProcessSync) : PipeEnd → Option Nat
  | .read => c.readFd
  | .write => c.writeFd

/-- `CrossProcessSync::CrossProcessSync()`. -/
def ctor : FdM CrossProcessSync := do
  let fds ← sysPipe
  return ⟨some fds.1, some fds.2, 0⟩

/-- `CrossProcessSync::CrossProcessSync(const CrossProcessSync&)`. -/
def copy (rhs : CrossProcessSync) : FdM CrossProcessSync := do
  let r ← sysDupAny rhs.readFd
  let w ← sysDupAny rhs.writeFd
  return ⟨r, w, rhs.counter⟩

/-- `CrossProcessSync::~CrossProcessSync`; `::close(-1)` does nothing. -/
def dtor (c : CrossProcessSync) : FdM Unit := do
  closeFd c.readFd
  closeFd c.writeFd

/-- `CrossProcessSync::operator=`. -/
def assign (c rhs : CrossProcessSync) : FdM CrossProcessSync := do
  closeFd c.readFd
  closeFd c.writeFd
  let r ← sysDupAny rhs.readFd
  let w ← sysDupAny rhs.writeFd
  return ⟨r, w, rhs.counter⟩

/-- How `try_signal_ready_for` ends. -/
inductive SignalResult where
  | signalled
  /-- `throw Error::Timeout{}` -/
  | timeout
  /-- `throw std::system_error`, from `poll` or `write` -/
  | failed (errno : Errno)
deriving DecidableEq, Repr

/-- How `wait_for_signal_ready_for` ends. -/
inductive WaitResult where
  | collected (counter : UInt32)
  /-- `throw Error::Timeout{}` -/
  | timeout
  /-- `throw std::system_error`, from `poll` or `read` -/
  | failed (errno : Errno)
  /-- `throw std::system_error`: `read` returned this many bytes; at the end of file, 0 -/
  | shortRead (n : Nat)
  /-- `throw std::system_error`: the value is not 1 -/
  | badValue (value : UInt32)
deriving DecidableEq, Repr

/-- The bytes of a `std::uint32_t` in memory. -/
def encode (value : UInt32) : List UInt8 :=
  [value.toUInt8, (value >>> 8).toUInt8, (value >>> 16).toUInt8, (value >>> 24).toUInt8]

/-- A `std::uint32_t` that was 0, with these bytes read into it. -/
def decode (bytes : List UInt8) : UInt32 :=
  bytes.foldr (fun b value => value <<< 8 ||| b.toUInt32) 0

/-- What `try_signal_ready_for` writes. -/
def token : List UInt8 := encode 1

/-- `wait_for_signal_ready_for` from the return of `read` on. -/
def finishWait (c : CrossProcessSync) (bytes : List UInt8) : WaitResult × CrossProcessSync :=
  if bytes.length ≠ 4 then (.shortRead bytes.length, c)
  else
    let value := decode bytes
    if value ≠ 1 then (.badValue value, c)
    else
      let c := { c with counter := c.counter + value }
      (.collected c.counter, c)

end CrossProcessSync

/-! ## Processes that share a pipe -/

open CrossProcessSync

/-- Where a call on an object stands. -/
inductive SyncPc where
  | idle
  | signalPolls
  | signalWrites
  | waitPolls
  | waitReads
deriving DecidableEq, Repr

structure SyncObject where
  sync : CrossProcessSync
  pc : SyncPc
deriving DecidableEq, Repr

structure SyncProcess where
  k : FdState
  objects : Nat → Option SyncObject

structure SyncWorld where
  /-- the processes under their pids -/
  procs : Nat → Option SyncProcess
  /-- what is in each pipe, the oldest first; nothing in those not made yet -/
  pipes : Nat → List UInt8
  /-- the number of the next pipe of the system -/
  nextPipe : Nat

namespace SyncWorld

/-- Any processes, before the first object is made. No call of `dup` is going to fail. -/
structure Fresh (w : SyncWorld) : Prop where
  quiet : ∀ p img, w.procs p = some img → img.k.faults = []
  objects : ∀ p img i, w.procs p = some img → img.objects i = none
  pipes : ∀ id, w.pipes id = []

def object (w : SyncWorld) (p i : Nat) : Option SyncObject :=
  (w.procs p).bind fun img => img.objects i

def counter (w : SyncWorld) (p i : Nat) : Option UInt32 :=
  (w.object p i).map fun o => o.sync.counter

def setProc (w : SyncWorld) (p : Nat) (img : Option SyncProcess) : SyncWorld :=
  { w with procs := Function.update w.procs p img }

/-- An object replaced, its process otherwise as it was. -/
def setObject (w : SyncWorld) (p : Nat) (img : SyncProcess) (i : Nat) (o : SyncObject) :
    SyncWorld :=
  w.setProc p (some { img with objects := Function.update img.objects i (some o) })

def setPipe (w : SyncWorld) (id : Nat) (bytes : List UInt8) : SyncWorld :=
  { w with pipes := Function.update w.pipes id bytes }

/-- Some process has the write end open. -/
def HasWriter (w : SyncWorld) (id : Nat) : Prop :=
  ∃ p img n, w.procs p = some img ∧ img.k.table.get n = some (.pipe id .write)

end SyncWorld

inductive SyncLabel where
  | construct (p i : Nat)
  | copy (p i j : Nat)
  | assign (p i j : Nat)
  | destroy (p i : Nat)
  | fork (p child : Nat)
  | exit (p : Nat)
  | signal (p i : Nat)
  | wait (p i : Nat)
  /-- `poll` returned 1 -/
  | ready (p i : Nat)
  /-- with the pipe that was written to, if any -/
  | signalEnds (p i : Nat) (result : SignalResult) (pipe : Option Nat)
  /-- with the pipe that was read from, if any -/
  | waitEnds (p i : Nat) (result : WaitResult) (pipe : Option Nat)
deriving DecidableEq, Repr

/-- What happens next, where a pipe has room for `capacity` bytes. -/
inductive SyncStep (capacity : Nat) (w : SyncWorld) : SyncLabel → SyncWorld → Prop where
  | construct {p img i c k'} (hp : w.procs p = some img) (hi : img.objects i = none)
      (hctor : ctor { img.k with nextPipe := w.nextPipe } = (.ok c, k')) :
      SyncStep capacity w (.construct p i)
        { w.setProc p (some ⟨k', Function.update img.objects i (some ⟨c, .idle⟩)⟩) with
          nextPipe := k'.nextPipe }
  | copy {p img i j o c k'} (hp : w.procs p = some img) (hi : img.objects i = none)
      (hj : img.objects j = some o) (hcopy : o.sync.copy img.k = (.ok c, k')) :
      SyncStep capacity w (.copy p i j)
        (w.setProc p (some ⟨k', Function.update img.objects i (some ⟨c, .idle⟩)⟩))
  | assign {p img i j o o' c k'} (hp : w.procs p = some img) (hij : i ≠ j)
      (hi : img.objects i = some o) (hidle : o.pc = .idle) (hj : img.objects j = some o')
      (hassign : o.sync.assign o'.sync img.k = (.ok c, k')) :
      SyncStep capacity w (.assign p i j)
        (w.setProc p (some ⟨k', Function.update img.objects i (some ⟨c, .idle⟩)⟩))
  | destroy {p img i o k'} (hp : w.procs p = some img) (hi : img.objects i = some o)
      (hidle : o.pc = .idle) (hdtor : o.sync.dtor img.k = (.ok (), k')) :
      SyncStep capacity w (.destroy p i)
        (w.setProc p (some ⟨k', Function.update img.objects i none⟩))
  /-- The child has copies of everything; calls that other threads had begun do not go on
  there. -/
  | fork {p child img} (hp : w.procs p = some img) (hchild : w.procs child = none) :
      SyncStep capacity w (.fork p child)
        (w.setProc child
          (some { img with objects := fun i => (img.objects i).map fun o => ⟨o.sync, .idle⟩ }))
  | exit {p img} (hp : w.procs p = some img) :
      SyncStep capacity w (.exit p) (w.setProc p none)
  | signal {p img i o} (hp : w.procs p = some img) (hi : img.objects i = some o)
      (hpc : o.pc = .idle) :
      SyncStep capacity w (.signal p i) (w.setObject p img i ⟨o.sync, .signalPolls⟩)
  | wait {p img i o} (hp : w.procs p = some img) (hi : img.objects i = some o)
      (hpc : o.pc = .idle) :
      SyncStep capacity w (.wait p i) (w.setObject p img i ⟨o.sync, .waitPolls⟩)
  | canWrite {p img i o} (hp : w.procs p = some img) (hi : img.objects i = some o)
      (hpc : o.pc = .signalPolls) :
      SyncStep capacity w (.ready p i) (w.setObject p img i ⟨o.sync, .signalWrites⟩)
  | canRead {p img i o} (hp : w.procs p = some img) (hi : img.objects i = some o)
      (hpc : o.pc = .waitPolls) :
      SyncStep capacity w (.ready p i) (w.setObject p img i ⟨o.sync, .waitReads⟩)
  | signalTimeout {p img i o} (hp : w.procs p = some img) (hi : img.objects i = some o)
      (hpc : o.pc = .signalPolls) :
      SyncStep capacity w (.signalEnds p i .timeout none) (w.setObject p img i ⟨o.sync, .idle⟩)
  | waitTimeout {p img i o} (hp : w.procs p = some img) (hi : img.objects i = some o)
      (hpc : o.pc = .waitPolls) :
      SyncStep capacity w (.waitEnds p i .timeout none) (w.setObject p img i ⟨o.sync, .idle⟩)
  /-- `poll` or `write` returned -1. -/
  | signalFails {p img i o} (errno : Errno) (hp : w.procs p = some img)
      (hi : img.objects i = some o) (hpc : o.pc = .signalPolls ∨ o.pc = .signalWrites) :
      SyncStep capacity w (.signalEnds p i (.failed errno) none)
        (w.setObject p img i ⟨o.sync, .idle⟩)
  /-- `poll` or `read` returned -1. -/
  | waitFails {p img i o} (errno : Errno) (hp : w.procs p = some img)
      (hi : img.objects i = some o) (hpc : o.pc = .waitPolls ∨ o.pc = .waitReads) :
      SyncStep capacity w (.waitEnds p i (.failed errno) none)
        (w.setObject p img i ⟨o.sync, .idle⟩)
  /-- `write` blocks until there is room for all four bytes. -/
  | write {p img i o n id} (hp : w.procs p = some img) (hi : img.objects i = some o)
      (hpc : o.pc = .signalWrites) (hfd : o.sync.writeFd = some n)
      (hend : img.k.table.get n = some (.pipe id .write))
      (hroom : (w.pipes id).length + token.length ≤ capacity) :
      SyncStep capacity w (.signalEnds p i .signalled (some id))
        ((w.setObject p img i ⟨o.sync, .idle⟩).setPipe id (w.pipes id ++ token))
  /-- `read` blocks while the pipe is empty and somebody may still write. -/
  | read {p img i o n id} (hp : w.procs p = some img) (hi : img.objects i = some o)
      (hpc : o.pc = .waitReads) (hfd : o.sync.readFd = some n)
      (hend : img.k.table.get n = some (.pipe id .read))
      (hready : w.pipes id ≠ [] ∨ ¬ w.HasWriter id) :
      SyncStep capacity w (.waitEnds p i (o.sync.finishWait ((w.pipes id).take 4)).1 (some id))
        ((w.setObject p img i ⟨(o.sync.finishWait ((w.pipes id).take 4)).2, .idle⟩).setPipe id
          ((w.pipes id).drop 4))

def syncSystem (capacity : Nat) : LTS SyncWorld SyncLabel where
  step := SyncStep capacity

/-! ## The descriptors of an object -/

open FdTable FdM

section Members

variable {κ : Type} [DecidableEq κ] {base : FdTable Descr} {k : FdState} {slot : κ → Option Nat}
  {kind : κ → Descr → Prop}

/-- `pipe` into two empty slots, if it does not fail. -/
theorem sysPipe_accounts (hok : k.nextFault = none) (h : base.Accounts k.table slot kind)
    {tr tw : κ} (htr : slot tr = none) (htw : slot tw = none) (hne : tw ≠ tr)
    (hread : kind tr (.pipe k.nextPipe .read)) (hwrite : kind tw (.pipe k.nextPipe .write)) :
    Returns sysPipe k fun fds k' => k'.faults = k.faults.tail ∧
      base.Accounts k'.table
        (Function.update (Function.update slot tr (some fds.1)) tw (some fds.2)) kind := by
  let r := k.table.alloc (.pipe k.nextPipe .read)
  let w := r.2.alloc (.pipe k.nextPipe .write)
  have hpipe : sysPipe k =
      (.ok (r.1, w.1), { k.called with table := w.2, nextPipe := k.nextPipe + 1 }) := by
    simp only [sysPipe, hok]
    rfl
  have htw₁ : Function.update slot tr (some r.1) tw = none := by
    rw [Function.update_of_ne hne, htw]
  exact ⟨(r.1, w.1), _, hpipe, rfl, (h.alloc htr hread).alloc htw₁ hwrite⟩

/-- `dup` of the descriptor in one slot into another, while it does not fail. -/
theorem sysDupAny_accounts (hquiet : k.faults = []) (h : base.Accounts k.table slot kind)
    {source target : κ} {n : Nat} (hsource : slot source = some n) (htarget : slot target = none)
    (hkind : ∀ d, kind source d → kind target d) :
    Returns (sysDupAny (some n)) k fun fd k' => ∃ m, fd = some m ∧ k'.faults = [] ∧
      base.Accounts k'.table (Function.update slot target (some m)) kind := by
  obtain ⟨d, hd, hs⟩ := h.isOpen source n hsource
  have hfault : k.nextFault = none := by
    rw [FdState.nextFault, hquiet]
    rfl
  refine ⟨some (k.table.alloc d).1, { k.called with table := (k.table.alloc d).2 }, ?_, _, rfl,
    ?_, h.alloc htarget (hkind d hs)⟩
  · simp only [sysDupAny, sysDup, hfault, FdTable.dup, hd, Option.map_some]
  · show k.faults.tail = []
    rw [hquiet, List.tail_nil]

namespace CrossProcessSync

theorem copy_accounts {c : CrossProcessSync} (hquiet : k.faults = [])
    (h : base.Accounts k.table slot kind) {sr sw tr tw : κ} {r w : Nat}
    (hr : c.readFd = some r) (hw : c.writeFd = some w) (hsr : slot sr = some r)
    (hsw : slot sw = some w) (htr : slot tr = none) (htw : slot tw = none) (hne : tw ≠ tr)
    (hread : ∀ d, kind sr d → kind tr d) (hwrite : ∀ d, kind sw d → kind tw d) :
    Returns c.copy k fun c' k' => ∃ r' w', c' = ⟨some r', some w', c.counter⟩ ∧
      k'.faults = [] ∧
      base.Accounts k'.table
        (Function.update (Function.update slot tr (some r')) tw (some w')) kind := by
  unfold copy
  rw [hr, hw]
  refine (sysDupAny_accounts hquiet h hsr htr hread).bind ?_
  rintro _ k₁ ⟨r', rfl, hquiet₁, h₁⟩
  have hsw₁ : Function.update slot tr (some r') sw = some w := by
    have hswtr : sw ≠ tr := by
      rintro rfl
      rw [htr] at hsw
      cases hsw
    rw [Function.update_of_ne hswtr, hsw]
  have htw₁ : Function.update slot tr (some r') tw = none := by
    rw [Function.update_of_ne hne, htw]
  refine (sysDupAny_accounts hquiet₁ h₁ hsw₁ htw₁ hwrite).bind ?_
  rintro _ k₂ ⟨w', rfl, hquiet₂, h₂⟩
  exact Returns.pure ⟨r', w', rfl, hquiet₂, h₂⟩

theorem ctor_accounts (hquiet : k.faults = []) (h : base.Accounts k.table slot kind) {tr tw : κ}
    (htr : slot tr = none) (htw : slot tw = none) (hne : tw ≠ tr)
    (hread : kind tr (.pipe k.nextPipe .read)) (hwrite : kind tw (.pipe k.nextPipe .write)) :
    Returns ctor k fun c k' => ∃ r w, c = ⟨some r, some w, 0⟩ ∧ k'.faults = [] ∧
      base.Accounts k'.table
        (Function.update (Function.update slot tr (some r)) tw (some w)) kind := by
  have hfault : k.nextFault = none := by
    rw [FdState.nextFault, hquiet]
    rfl
  refine (sysPipe_accounts hfault h htr htw hne hread hwrite).bind ?_
  rintro ⟨r, w⟩ k' ⟨hfaults, haccounts⟩
  refine Returns.pure ⟨r, w, rfl, ?_, haccounts⟩
  rw [hfaults, hquiet, List.tail_nil]

theorem dtor_accounts {c : CrossProcessSync} (hquiet : k.faults = [])
    (h : base.Accounts k.table slot kind) {cr cw : κ} (hcr : slot cr = c.readFd)
    (hcw : slot cw = c.writeFd) (hne : cw ≠ cr) :
    Returns c.dtor k fun _ k' => k'.faults = [] ∧
      base.Accounts k'.table (Function.update (Function.update slot cr none) cw none) kind := by
  refine ⟨(), _, rfl, hquiet, ?_⟩
  have h₁ := h.closeOpt cr
  have h₂ := h₁.closeOpt cw
  rw [Function.update_of_ne hne, hcr, hcw] at h₂
  exact h₂

/-- `a = b` is the destructor of `a` and then a copy of `b`. -/
theorem assign_eq (c rhs : CrossProcessSync) : c.assign rhs = c.dtor >>= fun _ => rhs.copy := rfl

end CrossProcessSync

end Members

/-- The number in `fds[side]` of an object. -/
def SyncProcess.slot (img : SyncProcess) : Nat × PipeEnd → Option Nat :=
  fun c => (img.objects c.1).bind fun o => o.sync.fd c.2

/-- The descriptors of a process: what it started with, and for each object both ends of a
pipe. -/
structure SyncProcess.Ok (img : SyncProcess) : Prop where
  quiet : img.k.faults = []
  accounts : ∃ (base : FdTable Descr) (pipeOf : Nat → Nat),
    base.Accounts img.k.table img.slot fun c d => d = .pipe (pipeOf c.1) c.2
  full : ∀ i o, img.objects i = some o → ∃ r w, o.sync.readFd = some r ∧ o.sync.writeFd = some w

namespace SyncProcess

theorem slot_update (img : SyncProcess) (k : FdState) (i : Nat) (o : Option SyncObject) :
    slot ⟨k, Function.update img.objects i o⟩ =
      Function.update (Function.update img.slot (i, .read) (o.bind fun o => o.sync.readFd))
        (i, .write) (o.bind fun o => o.sync.writeFd) := by
  funext ⟨j, side⟩
  by_cases hj : j = i
  · subst hj
    cases side with
    | read => cases o <;> simp [slot, CrossProcessSync.fd]
    | write => cases o <;> simp [slot, CrossProcessSync.fd]
  · simp [slot, hj]

theorem slot_of_none {img : SyncProcess} {i : Nat} (h : img.objects i = none) (side : PipeEnd) :
    img.slot (i, side) = none := by
  show (img.objects i).bind _ = none
  rw [h]
  rfl

theorem slot_of_some {img : SyncProcess} {i : Nat} {o : SyncObject} (h : img.objects i = some o)
    (side : PipeEnd) : img.slot (i, side) = o.sync.fd side := by
  show (img.objects i).bind _ = _
  rw [h]
  rfl

namespace Ok

variable {img : SyncProcess} {i j : Nat}

/-- Objects that keep their descriptors. -/
theorem of_same_fds {img' : SyncProcess} (h : img.Ok) (hk : img'.k = img.k)
    (hsame : ∀ i, (img'.objects i).map (fun o => o.sync.fd) =
      (img.objects i).map fun o => o.sync.fd) : img'.Ok := by
  have hslot : img'.slot = img.slot := by
    funext ⟨i, side⟩
    have hi := congrArg (fun fds => fds.bind fun fd => fd side) (hsame i)
    simpa [slot, Option.bind_map] using hi
  refine ⟨by rw [hk, h.quiet], by rw [hk, hslot]; exact h.accounts, fun i o ho => ?_⟩
  have hfds := hsame i
  rw [ho] at hfds
  cases hobject : img.objects i with
  | none =>
    rw [hobject] at hfds
    cases hfds
  | some o' =>
    rw [hobject] at hfds
    obtain ⟨r, w, hr, hw⟩ := h.full i o' hobject
    have hfd := Option.some.inj hfds
    exact ⟨r, w, (congrFun hfd .read).trans hr, (congrFun hfd .write).trans hw⟩

theorem setObject {o o' : SyncObject} (h : img.Ok) (hi : img.objects i = some o)
    (hfd : o'.sync.fd = o.sync.fd) :
    Ok { img with objects := Function.update img.objects i (some o') } := by
  refine h.of_same_fds rfl fun j => ?_
  show (Function.update img.objects i (some o') j).map _ = _
  by_cases hj : j = i
  · subst hj
    rw [Function.update_self, hi, Option.map_some, Option.map_some, hfd]
  · rw [Function.update_of_ne hj]

theorem destroy {o : SyncObject} {k' : FdState} (h : img.Ok) (hi : img.objects i = some o)
    (hdtor : o.sync.dtor img.k = (.ok (), k')) :
    Ok ⟨k', Function.update img.objects i none⟩ := by
  obtain ⟨base, pipeOf, haccounts⟩ := h.accounts
  obtain ⟨_, _, hrun, hquiet, haccounts'⟩ := dtor_accounts h.quiet haccounts
    (slot_of_some hi .read) (slot_of_some hi .write) (by simp)
  obtain ⟨-, rfl⟩ := Prod.mk.inj (hdtor.symm.trans hrun)
  refine ⟨hquiet, ⟨base, pipeOf, ?_⟩, fun j o' ho' => ?_⟩
  · rw [img.slot_update]
    exact haccounts'
  · obtain ⟨-, hnone⟩ | ⟨-, hj⟩ := update_cases ho'
    · cases hnone
    · exact h.full j o' hj

/-- An object with both ends of a pipe in the place of none. -/
theorem of_new {k' : FdState} {base : FdTable Descr} {pipeOf : Nat → Nat} {r n : Nat}
    {counter : UInt32} (h : img.Ok) (hquiet : k'.faults = [])
    (haccounts : base.Accounts k'.table
      (Function.update (Function.update img.slot (i, .read) (some r)) (i, .write) (some n))
      fun c d => d = .pipe (pipeOf c.1) c.2) :
    Ok ⟨k', Function.update img.objects i (some ⟨⟨some r, some n, counter⟩, .idle⟩)⟩ := by
  refine ⟨hquiet, ⟨base, pipeOf, ?_⟩, fun j o' ho' => ?_⟩
  · rw [img.slot_update]
    exact haccounts
  · obtain ⟨-, hnew⟩ | ⟨-, hj⟩ := update_cases ho'
    · cases hnew
      exact ⟨r, n, rfl, rfl⟩
    · exact h.full j o' hj

/-- The pipe of an object that is not there can be any. -/
theorem accounts_update (h : img.Ok) (hi : img.objects i = none) :
    ∃ (base : FdTable Descr) (pipeOf : Nat → Nat), ∀ id,
      base.Accounts img.k.table img.slot
        fun c d => d = .pipe (Function.update pipeOf i id c.1) c.2 := by
  obtain ⟨base, pipeOf, haccounts⟩ := h.accounts
  refine ⟨base, pipeOf, fun id => haccounts.of_kind fun c d hc hd => ?_⟩
  have hne : c.1 ≠ i := by
    rintro rfl
    exact hc (slot_of_none hi c.2)
  rw [Function.update_of_ne hne]
  exact hd

theorem construct {c : CrossProcessSync} {k' : FdState} {id : Nat} (h : img.Ok)
    (hi : img.objects i = none) (hctor : ctor { img.k with nextPipe := id } = (.ok c, k')) :
    Ok ⟨k', Function.update img.objects i (some ⟨c, .idle⟩)⟩ := by
  obtain ⟨base, pipeOf, haccounts⟩ := h.accounts_update hi
  have hne : (i, PipeEnd.write) ≠ (i, .read) := by simp
  have hpipe : ∀ side, Descr.pipe id side = .pipe (Function.update pipeOf i id i) side := by
    intro side
    rw [Function.update_self]
  obtain ⟨_, _, hrun, r, n, rfl, hquiet, haccounts'⟩ :=
    ctor_accounts (k := { img.k with nextPipe := id }) h.quiet (haccounts id)
      (slot_of_none hi .read) (slot_of_none hi .write) hne (hpipe .read) (hpipe .write)
  obtain ⟨hc, rfl⟩ := Prod.mk.inj (hctor.symm.trans hrun)
  cases hc
  exact h.of_new hquiet haccounts'

theorem copy {o : SyncObject} {c : CrossProcessSync} {k' : FdState} (h : img.Ok)
    (hi : img.objects i = none) (hj : img.objects j = some o)
    (hcopy : o.sync.copy img.k = (.ok c, k')) :
    Ok ⟨k', Function.update img.objects i (some ⟨c, .idle⟩)⟩ := by
  obtain ⟨r, n, hr, hn⟩ := h.full j o hj
  obtain ⟨base, pipeOf, haccounts⟩ := h.accounts_update hi
  have hji : j ≠ i := by
    rintro rfl
    rw [hi] at hj
    cases hj
  -- the copy has the pipe of the original
  have hpipe : ∀ side d, d = Descr.pipe (Function.update pipeOf i (pipeOf j) j) side →
      d = .pipe (Function.update pipeOf i (pipeOf j) i) side := by
    intro side d hd
    rw [Function.update_self]
    rwa [Function.update_of_ne hji] at hd
  obtain ⟨_, _, hrun, r', n', rfl, hquiet, haccounts'⟩ :=
    copy_accounts h.quiet (haccounts (pipeOf j)) hr hn ((slot_of_some hj .read).trans hr)
      ((slot_of_some hj .write).trans hn) (slot_of_none hi .read) (slot_of_none hi .write)
      (by simp) (hpipe .read) (hpipe .write)
  obtain ⟨hc, rfl⟩ := Prod.mk.inj (hcopy.symm.trans hrun)
  cases hc
  exact h.of_new hquiet haccounts'

/-- Assigning is destroying and copying in place. -/
theorem assign {o o' : SyncObject} {c : CrossProcessSync} {k' : FdState} (h : img.Ok)
    (hij : i ≠ j) (hi : img.objects i = some o) (hj : img.objects j = some o')
    (hassign : o.sync.assign o'.sync img.k = (.ok c, k')) :
    Ok ⟨k', Function.update img.objects i (some ⟨c, .idle⟩)⟩ := by
  obtain ⟨base, pipeOf, haccounts⟩ := h.accounts
  obtain ⟨_, k₁, hdtor, -⟩ := dtor_accounts h.quiet haccounts
    (slot_of_some hi .read) (slot_of_some hi .write) (by simp)
  rw [assign_eq, bind_eq hdtor] at hassign
  have hdestroyed := h.destroy hi hdtor
  have hj' : Function.update img.objects i none j = some o' := by
    rw [Function.update_of_ne hij.symm, hj]
  have hcopied := hdestroyed.copy (i := i) (Function.update_self ..) hj' hassign
  rw [Function.update_idem] at hcopied
  exact hcopied

theorem fork (h : img.Ok) :
    Ok { img with objects := fun i => (img.objects i).map fun o => ⟨o.sync, .idle⟩ } := by
  refine h.of_same_fds rfl fun i => ?_
  show ((img.objects i).map _).map _ = _
  rw [Option.map_map]
  rfl

end Ok

end SyncProcess

/-! ## What a step does -/

namespace SyncWorld

/-- All processes have their descriptors in order. -/
def Ok (w : SyncWorld) : Prop := ∀ p img, w.procs p = some img → img.Ok

theorem Ok.setProc {w : SyncWorld} (h : w.Ok) {p : Nat} {img : SyncProcess} (hok : img.Ok) :
    (w.setProc p (some img)).Ok := by
  intro q img' hq
  obtain ⟨-, himg⟩ | ⟨-, hother⟩ := update_cases hq
  · cases himg
    exact hok
  · exact h q img' hother

theorem Fresh.ok {w : SyncWorld} (h : w.Fresh) : w.Ok := by
  intro p img hp
  have hslot : img.slot = fun _ => none := by
    funext c
    exact SyncProcess.slot_of_none (h.objects p img c.1 hp) c.2
  refine ⟨h.quiet p img hp, ⟨img.k.table, id, ?_⟩, fun i o ho => ?_⟩
  · rw [hslot]
    exact Accounts.start ..
  · rw [h.objects p img i hp] at ho
    cases ho

end SyncWorld

variable {capacity : Nat} {w w' : SyncWorld} {l : SyncLabel}

theorem CrossProcessSync.finishWait_fd (c : CrossProcessSync) (bytes : List UInt8) :
    (c.finishWait bytes).2.fd = c.fd := by
  simp only [finishWait]
  split
  · rfl
  · split <;> rfl

theorem SyncStep.ok (h : SyncStep capacity w l w') (hok : w.Ok) : w'.Ok := by
  cases h with
  | construct hp hi hctor => exact hok.setProc ((hok _ _ hp).construct hi hctor)
  | copy hp hi hj hcopy => exact hok.setProc ((hok _ _ hp).copy hi hj hcopy)
  | assign hp hij hi _ hj hassign => exact hok.setProc ((hok _ _ hp).assign hij hi hj hassign)
  | destroy hp hi _ hdtor => exact hok.setProc ((hok _ _ hp).destroy hi hdtor)
  | fork hp _ => exact hok.setProc (hok _ _ hp).fork
  | exit hp =>
    intro q img hq
    obtain ⟨-, hnone⟩ | ⟨-, hother⟩ := update_cases hq
    · cases hnone
    · exact hok q img hother
  | signal hp hi | wait hp hi | canWrite hp hi | canRead hp hi | signalTimeout hp hi
  | waitTimeout hp hi | signalFails _ hp hi | waitFails _ hp hi | write hp hi =>
    exact hok.setProc ((hok _ _ hp).setObject hi rfl)
  | read hp hi => exact hok.setProc ((hok _ _ hp).setObject hi (finishWait_fd _ _))

/-- What `n` signals put into the pipe. -/
def tokens (n : Nat) : List UInt8 := (List.replicate n token).flatten

theorem tokens_succ (n : Nat) : tokens (n + 1) = token ++ tokens n := by
  rw [tokens, List.replicate_succ, List.flatten_cons]
  rfl

theorem tokens_append_token (n : Nat) : tokens n ++ token = tokens (n + 1) := by
  induction n with
  | zero => rfl
  | succ n ih => rw [tokens_succ, List.append_assoc, ih, ← tokens_succ]

/-- A whole token is collected. -/
theorem CrossProcessSync.finishWait_token (c : CrossProcessSync) :
    c.finishWait token = (.collected (c.counter + 1), { c with counter := c.counter + 1 }) := by
  have hlength : ¬ token.length ≠ 4 := by decide
  have hvalue : decode token = 1 := by decide
  simp only [finishWait, if_neg hlength, hvalue, ne_eq, not_true_eq_false, if_false]

/-- A wait that finds one signal in the pipe collects it. -/
theorem SyncStep.collect {p i n id : Nat} {img : SyncProcess} {o : SyncObject}
    (hp : w.procs p = some img) (hi : img.objects i = some o) (hpc : o.pc = .waitReads)
    (hfd : o.sync.readFd = some n) (hend : img.k.table.get n = some (.pipe id .read))
    (htoken : w.pipes id = token) :
    SyncStep capacity w (.waitEnds p i (.collected (o.sync.counter + 1)) (some id))
      ((w.setObject p img i ⟨{ o.sync with counter := o.sync.counter + 1 }, .idle⟩).setPipe id
        []) := by
  have hread : SyncStep capacity w _ _ := .read hp hi hpc hfd hend (.inl (htoken ▸ nofun))
  have htake : token.take 4 = token := rfl
  rw [htoken, htake, finishWait_token] at hread
  exact hread

/-- An object that reads from a pipe has its write end as well. -/
theorem SyncWorld.Ok.hasWriter (hok : w.Ok) {p i n id : Nat} {img : SyncProcess} {o : SyncObject}
    (hp : w.procs p = some img) (hi : img.objects i = some o) (hfd : o.sync.readFd = some n)
    (hend : img.k.table.get n = some (.pipe id .read)) : w.HasWriter id := by
  have himg := hok p img hp
  obtain ⟨base, pipeOf, haccounts⟩ := himg.accounts
  obtain ⟨-, m, -, hm⟩ := himg.full i o hi
  obtain ⟨d, hd, hread⟩ := haccounts.isOpen (i, .read) n
    ((SyncProcess.slot_of_some hi .read).trans hfd)
  obtain ⟨d', hd', rfl⟩ := haccounts.isOpen (i, .write) m
    ((SyncProcess.slot_of_some hi .write).trans hm)
  have hid : Descr.pipe id .read = .pipe (pipeOf i) .read :=
    (Option.some.inj (hend.symm.trans hd)).trans hread
  obtain ⟨rfl, -⟩ := Descr.pipe.inj hid
  exact ⟨p, img, m, hp, hd'⟩

/-- How a wait can end while the pipes hold whole tokens: with one of them, or with a
`Timeout` or an error of a system call, and then nothing happened. -/
theorem SyncStep.waitEnds_cases {p i : Nat} {r : WaitResult} {pipe : Option Nat} {n : Nat → Nat}
    (h : SyncStep capacity w (.waitEnds p i r pipe) w') (hok : w.Ok)
    (htokens : ∀ id, w.pipes id = tokens (n id)) :
    ∃ img o, w.procs p = some img ∧ img.objects i = some o ∧
      ((∃ id m, pipe = some id ∧ n id = m + 1 ∧ r = .collected (o.sync.counter + 1) ∧
        w' = (w.setObject p img i
          ⟨{ o.sync with counter := o.sync.counter + 1 }, .idle⟩).setPipe id (tokens m)) ∨
      ((r = .timeout ∨ ∃ errno, r = .failed errno) ∧ pipe = none ∧
        w' = w.setObject p img i ⟨o.sync, .idle⟩)) := by
  cases h with
  | waitTimeout hp hi _ => exact ⟨_, _, hp, hi, .inr ⟨.inl rfl, rfl, rfl⟩⟩
  | waitFails errno hp hi _ => exact ⟨_, _, hp, hi, .inr ⟨.inr ⟨errno, rfl⟩, rfl, rfl⟩⟩
  | @read p img i o fd id hp hi _ hfd hend hready =>
    refine ⟨img, o, hp, hi, .inl ⟨id, ?_⟩⟩
    cases hn : n id with
    | zero =>
      -- the pipe is empty, and the object itself has its write end
      have hempty : w.pipes id = [] := by
        rw [htokens, hn]
        rfl
      have hwriter := hok.hasWriter hp hi hfd hend
      exact absurd hempty (hready.resolve_right fun hno => hno hwriter)
    | succ m =>
      have htake : (w.pipes id).take 4 = token := by
        rw [htokens, hn, tokens_succ]
        rfl
      have hdrop : (w.pipes id).drop 4 = tokens m := by
        rw [htokens, hn, tokens_succ]
        rfl
      refine ⟨m, rfl, rfl, ?_, ?_⟩
      · rw [htake, finishWait_token]
      · rw [htake, hdrop, finishWait_token]

/-- The label of a signal that was sent through the pipe. -/
def SyncLabel.isSignalled (id : Nat) : SyncLabel → Bool
  | .signalEnds _ _ .signalled (some id') => id' == id
  | _ => false

/-- The label of a wait that collected a signal from the pipe. -/
def SyncLabel.isCollected (id : Nat) : SyncLabel → Bool
  | .waitEnds _ _ (.collected _) (some id') => id' == id
  | _ => false

/-- A step puts a token in with each signal, takes one out with each wait that succeeds, and
touches the pipes in no other way. -/
theorem SyncStep.tokens {n : Nat → Nat} (h : SyncStep capacity w l w') (hok : w.Ok)
    (htokens : ∀ id, w.pipes id = tokens (n id)) :
    ∃ n' : Nat → Nat, ∀ id, w'.pipes id = Core.tokens (n' id) ∧
      n id + (l.isSignalled id).toNat = n' id + (l.isCollected id).toNat := by
  cases l with
  | waitEnds p i r pipe =>
    obtain ⟨img, o, -, -, ⟨id, m, rfl, hn, rfl, rfl⟩ | ⟨hr, rfl, rfl⟩⟩ :=
      h.waitEnds_cases hok htokens
    · refine ⟨Function.update n id m, fun id' => ?_⟩
      show Function.update w.pipes id _ id' = _ ∧ n id' + 0 = _ + (id == id').toNat
      by_cases hid : id' = id
      · subst hid
        rw [Function.update_self, Function.update_self, hn, beq_self_eq_true]
        exact ⟨rfl, rfl⟩
      · rw [Function.update_of_ne hid, Function.update_of_ne hid,
          beq_eq_false_iff_ne.mpr (Ne.symm hid)]
        exact ⟨htokens id', rfl⟩
    · refine ⟨n, fun id => ⟨htokens id, ?_⟩⟩
      obtain rfl | ⟨errno, rfl⟩ := hr <;> rfl
  | signalEnds p i r pipe =>
    cases h with
    | signalTimeout => exact ⟨n, fun id => ⟨htokens id, rfl⟩⟩
    | signalFails => exact ⟨n, fun id => ⟨htokens id, rfl⟩⟩
    | @write _ _ _ _ _ id =>
      refine ⟨Function.update n id (n id + 1), fun id' => ?_⟩
      show Function.update w.pipes id _ id' = _ ∧ n id' + (id == id').toNat = _ + 0
      by_cases hid : id' = id
      · subst hid
        rw [Function.update_self, Function.update_self, htokens, tokens_append_token,
          beq_self_eq_true]
        exact ⟨rfl, rfl⟩
      · rw [Function.update_of_ne hid, Function.update_of_ne hid,
          beq_eq_false_iff_ne.mpr (Ne.symm hid)]
        exact ⟨htokens id', rfl⟩
  | construct | copy | assign | destroy | fork | exit | signal | wait | ready =>
    cases h <;> exact ⟨n, fun id => ⟨htokens id, rfl⟩⟩

/-! ## The counters -/

theorem SyncWorld.object_setProc (w : SyncWorld) (p : Nat) (img : Option SyncProcess) (q j : Nat) :
    (w.setProc p img).object q j =
      if q = p then img.bind fun img => img.objects j else w.object q j := by
  show (Function.update w.procs p img q).bind _ = _
  by_cases hq : q = p
  · rw [if_pos hq, hq, Function.update_self]
  · rw [if_neg hq, Function.update_of_ne hq]
    rfl

@[simp] theorem SyncWorld.object_setPipe (w : SyncWorld) (id : Nat) (bytes : List UInt8) :
    (w.setPipe id bytes).object = w.object := rfl

theorem SyncWorld.object_eq {p : Nat} {img : SyncProcess} (hp : w.procs p = some img) (i : Nat) :
    w.object p i = img.objects i := by
  rw [object, hp]
  rfl

/-- An object replaced in its process: the others are as they were. -/
theorem SyncWorld.object_setObject {p i : Nat} {img : SyncProcess} (hp : w.procs p = some img)
    (o : SyncObject) (q j : Nat) :
    (w.setObject p img i o).object q j = if (q, j) = (p, i) then some o else w.object q j := by
  rw [setObject, object_setProc]
  by_cases hq : q = p
  · subst hq
    rw [if_pos rfl, object_eq hp]
    show Function.update img.objects i (some o) j = _
    by_cases hj : j = i
    · subst hj
      rw [Function.update_self, if_pos rfl]
    · rw [Function.update_of_ne hj, if_neg fun h => hj (Prod.mk.inj h).2]
  · rw [if_neg hq, if_neg fun h => hq (Prod.mk.inj h).1]

/-- An object on which a call goes on keeps its counter. -/
theorem SyncWorld.counter_setObject {p i : Nat} {img : SyncProcess} (hp : w.procs p = some img)
    {o : SyncObject} (hi : img.objects i = some o) (pc : SyncPc) (q j : Nat) :
    (w.setObject p img i ⟨o.sync, pc⟩).counter q j = w.counter q j := by
  rw [counter, object_setObject hp]
  by_cases hj : (q, j) = (p, i)
  · rw [if_pos hj]
    cases hj
    rw [counter, object_eq hp, hi]
    rfl
  · rw [if_neg hj]
    rfl

/-- The step makes the object or puts another in its place, or ends it or its process. -/
def SyncLabel.Replaces (q j : Nat) : SyncLabel → Prop
  | .construct p i => (p, i) = (q, j)
  | .copy p i _ => (p, i) = (q, j)
  | .assign p i _ => (p, i) = (q, j)
  | .destroy p i => (p, i) = (q, j)
  | .exit p => p = q
  | _ => False

/-- What a wait on the object returned, if the step is the end of one that succeeded. -/
def SyncLabel.result (q j : Nat) : SyncLabel → Option UInt32
  | .waitEnds p i (.collected n) _ => if (p, i) = (q, j) then some n else none
  | _ => none

/-- Replacing one object of a process, or adding a process, is not felt by the others. -/
theorem SyncWorld.counter_update {p i q j : Nat} {img : SyncProcess} (hp : w.procs p = some img)
    {k : FdState} {o : Option SyncObject} (hne : ¬ (p, i) = (q, j)) :
    (w.setProc p (some ⟨k, Function.update img.objects i o⟩)).counter q j = w.counter q j := by
  rw [counter, object_setProc]
  by_cases hq : q = p
  · subst hq
    have hj : j ≠ i := by
      rintro rfl
      exact hne rfl
    rw [if_pos rfl, Option.bind_some, counter, object_eq hp]
    show (Function.update img.objects i o j).map _ = _
    rw [Function.update_of_ne hj]
  · rw [if_neg hq]
    rfl

/-- The end of a wait moves the counter of its object if it succeeds. -/
theorem SyncStep.counter_waitEnds {p i q j : Nat} {r : WaitResult} {pipe : Option Nat}
    {n : Nat → Nat} {c : UInt32} (h : SyncStep capacity w (.waitEnds p i r pipe) w') (hok : w.Ok)
    (htokens : ∀ id, w.pipes id = Core.tokens (n id)) (hc : w.counter q j = some c) :
    ((SyncLabel.waitEnds p i r pipe).result q j = some (c + 1) ∧
        w'.counter q j = some (c + 1)) ∨
      ((SyncLabel.waitEnds p i r pipe).result q j = none ∧ w'.counter q j = some c) := by
  obtain ⟨img, o, hp, hi, ⟨id, m, -, -, rfl, rfl⟩ | ⟨hr, -, rfl⟩⟩ := h.waitEnds_cases hok htokens
  · by_cases hq : (q, j) = (p, i)
    · left
      cases hq
      have hcounter : o.sync.counter = c := by
        rw [SyncWorld.counter, SyncWorld.object_eq hp, hi] at hc
        exact Option.some.inj hc
      constructor
      · rw [SyncLabel.result, if_pos rfl, hcounter]
      · rw [SyncWorld.counter, SyncWorld.object_setPipe, SyncWorld.object_setObject hp,
          if_pos rfl, Option.map_some, hcounter]
    · right
      refine ⟨if_neg fun he => hq he.symm, ?_⟩
      rw [SyncWorld.counter, SyncWorld.object_setPipe, SyncWorld.object_setObject hp, if_neg hq]
      exact hc
  · right
    refine ⟨?_, (SyncWorld.counter_setObject hp hi .idle q j).trans hc⟩
    obtain rfl | ⟨errno, rfl⟩ := hr <;> rfl

/-- The counter of an object moves with the waits that succeed on it, and only with them. -/
theorem SyncStep.counter {q j : Nat} {n : Nat → Nat} {c : UInt32}
    (h : SyncStep capacity w l w') (hok : w.Ok)
    (htokens : ∀ id, w.pipes id = Core.tokens (n id)) (hc : w.counter q j = some c)
    (hkeep : ¬ l.Replaces q j) :
    (l.result q j = some (c + 1) ∧ w'.counter q j = some (c + 1)) ∨
      (l.result q j = none ∧ w'.counter q j = some c) := by
  cases l with
  | waitEnds p i r pipe => exact h.counter_waitEnds hok htokens hc
  | construct | copy | assign | destroy =>
    right
    refine ⟨rfl, ?_⟩
    cases h with
    | _ hp => exact (SyncWorld.counter_update hp hkeep).trans hc
  | fork p child =>
    right
    refine ⟨rfl, ?_⟩
    cases h with
    | fork hp hchild =>
      rw [SyncWorld.counter, SyncWorld.object_setProc]
      by_cases hq : q = child
      · subst hq
        rw [SyncWorld.counter, SyncWorld.object, hchild] at hc
        cases hc
      · rw [if_neg hq]
        exact hc
  | exit p =>
    right
    refine ⟨rfl, ?_⟩
    cases h with
    | exit hp =>
      rw [SyncWorld.counter, SyncWorld.object_setProc, if_neg fun hq => hkeep hq.symm]
      exact hc
  | signal p i =>
    cases h with
    | signal hp hi => exact .inr ⟨rfl, (SyncWorld.counter_setObject hp hi _ q j).trans hc⟩
  | wait p i =>
    cases h with
    | wait hp hi => exact .inr ⟨rfl, (SyncWorld.counter_setObject hp hi _ q j).trans hc⟩
  | ready p i =>
    cases h with
    | canWrite hp hi | canRead hp hi =>
      exact .inr ⟨rfl, (SyncWorld.counter_setObject hp hi _ q j).trans hc⟩
  | signalEnds p i r pipe =>
    cases h with
    | signalTimeout hp hi | signalFails _ hp hi | write hp hi =>
      exact .inr ⟨rfl, (SyncWorld.counter_setObject hp hi _ q j).trans hc⟩

/-! ## Runs -/

section Runs

variable {ls : List SyncLabel}

theorem ok_of_run (h : (syncSystem capacity).Run w ls w') (hok : w.Ok) : w'.Ok :=
  h.invariant (P := SyncWorld.Ok) (fun _ _ _ hstep hw => SyncStep.ok hstep hw) hok

theorem tokens_of_run {n : Nat → Nat} (h : (syncSystem capacity).Run w ls w') (hok : w.Ok)
    (htokens : ∀ id, w.pipes id = tokens (n id)) :
    ∃ n' : Nat → Nat, ∀ id, w'.pipes id = tokens (n' id) ∧
      n id + ls.countP (SyncLabel.isSignalled id) =
        n' id + ls.countP (SyncLabel.isCollected id) := by
  induction h generalizing n with
  | nil => exact ⟨n, fun id => ⟨htokens id, rfl⟩⟩
  | @cons w w₁ w' l ls hstep _ ih =>
    obtain ⟨n₁, hstep₁⟩ := SyncStep.tokens hstep hok htokens
    obtain ⟨n', hrest⟩ := ih (SyncStep.ok hstep hok) fun id => (hstep₁ id).1
    refine ⟨n', fun id => ⟨(hrest id).1, ?_⟩⟩
    have hcons : ∀ f : SyncLabel → Bool, (l :: ls).countP f = ls.countP f + (f l).toNat := by
      intro f
      rw [List.countP_cons]
      cases f l <;> rfl
    have hfirst := (hstep₁ id).2
    have hlater := (hrest id).2
    rw [hcons, hcons]
    omega

/-- What the waits on an object returned, in order. -/
def results (q j : Nat) (ls : List SyncLabel) : List UInt32 := ls.filterMap (SyncLabel.result q j)

/-- The `m`-th wait that succeeds on an object returns its counter at the start plus `m`. -/
theorem results_of_run {q j : Nat} {n : Nat → Nat} {c : UInt32}
    (h : (syncSystem capacity).Run w ls w') (hok : w.Ok)
    (htokens : ∀ id, w.pipes id = tokens (n id)) (hc : w.counter q j = some c)
    (hkeep : ∀ l ∈ ls, ¬ l.Replaces q j) :
    ∃ m, results q j ls = (List.range m).map (fun i => c + UInt32.ofNat (i + 1)) ∧
      w'.counter q j = some (c + UInt32.ofNat m) := by
  induction h generalizing n c with
  | nil =>
    refine ⟨0, rfl, ?_⟩
    show _ = some (c + 0)
    rw [hc, UInt32.add_zero]
  | @cons w w₁ w' l ls hstep _ ih =>
    obtain ⟨hl, hkeep⟩ := List.forall_mem_cons.mp hkeep
    obtain ⟨n₁, htokens₁⟩ := SyncStep.tokens hstep hok htokens
    have hok₁ := SyncStep.ok hstep hok
    obtain ⟨hresult, hc₁⟩ | ⟨hresult, hc₁⟩ := SyncStep.counter hstep hok htokens hc hl
    · obtain ⟨m, hrest, hend⟩ := ih hok₁ (fun id => (htokens₁ id).1) hc₁ hkeep
      -- the rest counts from one more
      have hshift : ∀ i, c + 1 + UInt32.ofNat i = c + UInt32.ofNat (i + 1) := by
        intro i
        rw [UInt32.add_assoc, UInt32.add_comm 1, UInt32.ofNat_add]
        rfl
      refine ⟨m + 1, ?_, by rw [hend, hshift]⟩
      rw [results, List.filterMap_cons_some hresult, List.range_succ_eq_map, List.map_cons,
        List.map_map]
      show _ :: results q j ls = _
      rw [hrest]
      simp only [hshift]
      rfl
    · obtain ⟨m, hrest, hend⟩ := ih hok₁ (fun id => (htokens₁ id).1) hc₁ hkeep
      refine ⟨m, ?_, hend⟩
      rw [results, List.filterMap_cons_none hresult]
      exact hrest

end Runs

/-- What holds in `w` after the steps `ls`. -/
structure Conserved (capacity : Nat) (ls : List SyncLabel) (w : SyncWorld) : Prop where
  /-- What was signalled is in the pipe, or has been collected. -/
  balance : ∀ id, ∃ n, w.pipes id = tokens n ∧
    ls.countP (SyncLabel.isSignalled id) = n + ls.countP (SyncLabel.isCollected id)
  /-- A wait that succeeds counts on its own object only, and returns the count. -/
  collects : ∀ q i m pipe w', SyncStep capacity w (.waitEnds q i (.collected m) pipe) w' →
    ∃ v, w.counter q i = some v ∧ m = v + 1 ∧ w'.counter q i = some (v + 1) ∧
      ∀ q' i', (q', i') ≠ (q, i) → w'.counter q' i' = w.counter q' i'
  /-- From here on the waits on an object return its counter plus 1, plus 2 and so on, as
  long as nothing else is assigned to it. -/
  inOrder : ∀ q i v ms w', (syncSystem capacity).Run w ms w' → w.counter q i = some v →
    (∀ l ∈ ms, ¬ l.Replaces q i) →
    ∃ m, results q i ms = (List.range m).map (fun n => v + UInt32.ofNat (n + 1)) ∧
      w'.counter q i = some (v + UInt32.ofNat m)
  /-- A call that times out leaves the pipes and the counters alone. -/
  timeout : ∀ q i pipe w', SyncStep capacity w (.signalEnds q i .timeout pipe) w' ∨
    SyncStep capacity w (.waitEnds q i .timeout pipe) w' →
    w'.pipes = w.pipes ∧ ∀ q' i', w'.counter q' i' = w.counter q' i'
  /-- No wait meets a short read, the end of file or another value. -/
  wholeTokens : ∀ q i r pipe w', SyncStep capacity w (.waitEnds q i r pipe) w' →
    (∀ n, r ≠ .shortRead n) ∧ ∀ v, r ≠ .badValue v

/-- Signals are conserved, whatever the order of steps and the outcomes of `poll`: for each
pipe, and so for all objects that copies, assignments and forks make out of one. -/
theorem sync_signals_conserved (capacity : Nat) {w₀ w : SyncWorld} (h₀ : w₀.Fresh)
    {ls : List SyncLabel} (hrun : (syncSystem capacity).Run w₀ ls w) :
    Conserved capacity ls w := by
  have hok := ok_of_run hrun h₀.ok
  obtain ⟨n, hn⟩ := tokens_of_run (n := fun _ => 0) hrun h₀.ok h₀.pipes
  have htokens : ∀ id, w.pipes id = tokens (n id) := fun id => (hn id).1
  refine ⟨fun id => ⟨n id, htokens id, ?_⟩, ?_, ?_, ?_, ?_⟩
  · have hbalance := (hn id).2
    omega
  · intro q i m pipe w' hstep
    obtain ⟨img, o, hp, hi, ⟨id, _, -, -, hr, rfl⟩ | ⟨hr, -⟩⟩ := hstep.waitEnds_cases hok htokens
    · refine ⟨o.sync.counter, ?_, WaitResult.collected.inj hr, ?_, fun q' i' hne => ?_⟩
      · rw [SyncWorld.counter, SyncWorld.object_eq hp, hi]
        rfl
      · rw [SyncWorld.counter, SyncWorld.object_setPipe, SyncWorld.object_setObject hp,
          if_pos rfl]
        rfl
      · rw [SyncWorld.counter, SyncWorld.object_setPipe, SyncWorld.object_setObject hp,
          if_neg hne]
        rfl
    · obtain hr | ⟨errno, hr⟩ := hr <;> cases hr
  · intro q i v ms w' hrun' hv hkeep
    exact results_of_run hrun' hok htokens hv hkeep
  · rintro q i pipe w' (hstep | hstep)
    · cases hstep with
      | signalTimeout hp hi => exact ⟨rfl, SyncWorld.counter_setObject hp hi .idle⟩
    · obtain ⟨img, o, hp, hi, ⟨_, _, -, -, hr, -⟩ | ⟨-, -, rfl⟩⟩ :=
        hstep.waitEnds_cases hok htokens
      · cases hr
      · exact ⟨rfl, SyncWorld.counter_setObject hp hi .idle⟩
  · intro q i r pipe w' hstep
    obtain ⟨img, o, -, -, ⟨_, _, -, -, rfl, -⟩ | ⟨hr, -⟩⟩ := hstep.waitEnds_cases hok htokens
    · exact ⟨nofun, nofun⟩
    · obtain rfl | ⟨errno, rfl⟩ := hr
      · exact ⟨nofun, nofun⟩
      · exact ⟨nofun, nofun⟩

/-- One process, with nothing open. -/
def bareSyncWorld : SyncWorld where
  procs := Function.update (fun _ => none) 7 (some ⟨⟨FdTable.empty, false, 0, []⟩, fun _ => none⟩)
  pipes := fun _ => []
  nextPipe := 0

/-- A process forks another, which waits on the copy of an object for one signal. -/
def oneSignal : List SyncLabel :=
  [.construct 7 0, .copy 7 1 0, .fork 7 8, .wait 8 1, .ready 8 1, .signal 7 0, .ready 7 0,
    .signalEnds 7 0 .signalled (some 0), .waitEnds 8 1 (.collected 1) (some 0)]

theorem sync_signals_conserved_oneSignal :
    ∃ w, (syncSystem 4096).Run bareSyncWorld oneSignal w ∧ Conserved 4096 oneSignal w ∧
      w.pipes 0 = [] ∧ w.counter 8 1 = some 1 ∧ w.counter 7 0 = some 0 := by
  have hbare : ∀ p img, bareSyncWorld.procs p = some img →
      img = ⟨⟨FdTable.empty, false, 0, []⟩, fun _ => none⟩ := by
    intro p img hp
    simp only [bareSyncWorld] at hp
    obtain ⟨-, himg⟩ | ⟨-, hnone⟩ := update_cases hp
    · exact (Option.some.inj himg).symm
    · cases hnone
  have hfresh : bareSyncWorld.Fresh := by
    refine ⟨fun p img hp => ?_, fun p img i hp => ?_, fun _ => rfl⟩
    · rw [hbare p img hp]
    · rw [hbare p img hp]
  have hne : ∀ i : Nat, (i, PipeEnd.write) ≠ (i, .read) := by simp
  obtain ⟨_, k, hctor, r, n, rfl, hquiet, haccounts⟩ :=
    ctor_accounts (k := ⟨FdTable.empty, false, 0, []⟩) rfl
      (Accounts.start FdTable.empty fun c d => d = .pipe 0 c.2) rfl rfl (hne 0) rfl rfl
  obtain ⟨_, k', hcopy, r', n', rfl, -, hcopied⟩ :=
    copy_accounts (c := ⟨some r, some n, 0⟩) hquiet haccounts rfl rfl
      (Function.update_of_ne (hne 0).symm ..) (Function.update_self ..) rfl rfl (hne 1)
      (fun _ hd => hd) (fun _ hd => hd)
  -- the original is written to, and what the child reads is its copy of the copy
  obtain ⟨_, hend, rfl⟩ := hcopied.isOpen (0, .write) n rfl
  obtain ⟨_, hend', rfl⟩ := hcopied.isOpen (1, .read) r' rfl
  have hroom : ([] : List UInt8).length + token.length ≤ 4096 := by decide
  have hrun : (syncSystem 4096).Run bareSyncWorld oneSignal _ :=
    .cons (.construct rfl rfl hctor) <| .cons (.copy rfl rfl rfl hcopy) <|
    .cons (.fork rfl rfl) <| .cons (.wait rfl rfl rfl) <| .cons (.canRead rfl rfl rfl) <|
    .cons (.signal rfl rfl rfl) <| .cons (.canWrite rfl rfl rfl) <|
    .cons (.write rfl rfl rfl rfl hend hroom) <|
    .cons (.collect (o := ⟨⟨some r', some n', 0⟩, .waitReads⟩) rfl rfl rfl rfl hend' rfl) (.nil _)
  exact ⟨_, hrun, sync_signals_conserved 4096 hfresh hrun, rfl, rfl, rfl⟩

end ProcessCpp.Core
