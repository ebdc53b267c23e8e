import ProcessCpp.Base.Prelude
import ProcessCpp.Base.Transition
import ProcessCpp.Core.SignalTrap
import ProcessCpp.Posix.Children

/-!
# `ChildProcess::DeathObserver` (child_process.cpp:40–150)

The observer keeps a map from pids to the children it was asked to watch, guarded by a
mutex, and reaps in two places: `add` waits for the one child it has just inserted,
`on_sig_child` waits for any child of the process group until there is none left.
The second calls `waitpid` *before* it takes the mutex, so between its `waitpid` and
its `lock` a child is reaped and still in the map.

Both members are modelled one visible action at a time (`AddStep`, `OscStep`): every
`lock`, `unlock`, `waitpid`, look-up, insertion, emission and erasure is a step of its
own, and `AddPc`/`OscPc` say what the thread holds in between.

- `ChildProcess`: a value with the identity of its shared `Private`;
- `Observer`: the members of the class, with two histories that the code does not
  keep: what was inserted and what was announced;
- `observerSystem`: any number of threads inside `add` and `on_sig_child`, the kernel
  around them, and callers of `wait_for`.
-/

namespace ProcessCpp.Core

open ProcessCpp.Base ProcessCpp.Posix

/-! ## The values -/

/-- A `ChildProcess`, up to copying: all copies share one `Private`, made by a fork
(with its serial number) or by a call of `ChildProcess::invalid()`. -/
inductive ChildProcess where
  | forked (pid serial : Nat)
  | invalid (n : Nat)
deriving DecidableEq, Repr

namespace ChildProcess

/-- `invalid_pid`: "We take the init process as child." -/
def invalidPid : Nat := 1

/-- `Process::pid`. -/
def pid : ChildProcess → Nat
  | .forked pid _ => pid
  | .invalid _ => invalidPid

/-- The value exists: the fork it names has returned its pid. -/
def Made (k : Kernel) : ChildProcess → Prop
  | .forked pid serial => k.forks[serial]? = some pid
  | .invalid _ => True

end ChildProcess

/-- `ChildProcess::wait_for`, as far as the kernel goes: `wait::Flags` are passed on
as they are. -/
def Wait.Flags.options (flags : Wait.Flags) : WaitOptions :=
  ⟨flags.bits &&& 1 != 0, flags.bits &&& 2 != 0, flags.bits &&& 8 != 0⟩

/-! ## The class -/

/-- The threads that can hold `guard`. -/
inductive Locker where
  | add (thread : Nat)
  | onSigChild (thread : Nat)
deriving DecidableEq, Repr

/-- The members of `DeathObserverImpl`. -/
structure Observer where
  guard : Option Locker
  children : Nat → Option ChildProcess
  /-- history: every successful insertion -/
  inserted : List ChildProcess
  /-- history: every emission of `child_died` -/
  died : List ChildProcess

namespace Observer

/-- The members of a new observer. -/
def initial : Observer := ⟨none, fun _ => none, [], []⟩

/-- `DeathObserverImpl::DeathObserverImpl`. -/
def ctor (trap : SignalTrap) : Except Exception Observer :=
  if trap.has Signal.sigChld then
    .ok initial
  else
    .error (.logicError
      ("DeathObserver::DeathObserverImpl: Given SignalTrap" ++
        " instance does not trap Signal::sig_chld.").toList)

theorem ctor_eq_ok {trap : SignalTrap} {o : Observer} (h : ctor trap = .ok o) :
    trap.has Signal.sigChld = true ∧ o = initial := by
  unfold ctor at h
  by_cases htrap : trap.has Signal.sigChld = true
  · rw [if_pos htrap] at h
    cases h
    exact ⟨htrap, rfl⟩
  · rw [if_neg htrap] at h
    cases h

def insert (o : Observer) (c : ChildProcess) : Observer :=
  { o with
    children := Function.update o.children c.pid (some c)
    inserted := o.inserted ++ [c] }

def erase (o : Observer) (pid : Nat) : Observer :=
  { o with children := Function.update o.children pid none }

/-- `DeathObserverImpl::has`. -/
def has (o : Observer) (c : ChildProcess) : Bool := (o.children c.pid).isSome

/-- `signals.child_died(c)`, whose subscribers return normally. -/
def emit (o : Observer) (c : ChildProcess) : Observer := { o with died := o.died ++ [c] }

end Observer

/-! ## `add` -/

/-- Where a thread stands inside `add`, with the child it was called for. -/
inductive AddPc where
  | start (c : ChildProcess)
  | locked (c : ChildProcess)
  | inserted (c : ChildProcess)
  /-- `waitpid` said that the child is gone -/
  | missed (c : ChildProcess)
  | emitted (c : ChildProcess)
  /-- about to release the mutex and return -/
  | leaving (c : ChildProcess) (result : Bool)
deriving DecidableEq

inductive AddLabel where
  | lock
  | insert
  | wait (a : WaitAnswer)
  | emit
  | erase
  | ret (result : Bool)
deriving DecidableEq

/-- `DeathObserverImpl::add`. The thread is outside after the step when the last
argument is `none`. -/
inductive AddStep (me : Nat) (k : Kernel) (o : Observer) :
    AddPc → AddLabel → Kernel → Observer → Option AddPc → Prop where
  | invalidPid {c} (hpid : (c.pid : Int) = -1) :
      AddStep me k o (.start c) (.ret false) k o none
  | lock {c} (hpid : (c.pid : Int) ≠ -1) (hfree : o.guard = none) :
      AddStep me k o (.start c) .lock k { o with guard := some (.add me) } (some (.locked c))
  | insert {c} (hnew : o.children c.pid = none) :
      AddStep me k o (.locked c) .insert k (o.insert c) (some (.inserted c))
  | present {c d} (hold : o.children c.pid = some d) :
      AddStep me k o (.locked c) .insert k o (some (.leaving c false))
  | alive {c k'} (hw : Waitpid k (.process c.pid) .wnohang .nothing k') :
      AddStep me k o (.inserted c) (.wait .nothing) k' o (some (.leaving c true))
  | gone {c a k'} (hw : Waitpid k (.process c.pid) .wnohang a k') (ha : a ≠ .nothing) :
      AddStep me k o (.inserted c) (.wait a) k' o (some (.missed c))
  | emit {c} : AddStep me k o (.missed c) .emit k (o.emit c) (some (.emitted c))
  | erase {c} :
      AddStep me k o (.emitted c) .erase k (o.erase c.pid) (some (.leaving c false))
  | unlock {c result} :
      AddStep me k o (.leaving c result) (.ret result) k { o with guard := none } none

/-! ## `on_sig_child` -/

/-- Where a thread stands inside `on_sig_child`, with the pid and the status it holds. -/
inductive OscPc where
  | wait
  | reaped (pid : Nat) (status : StateChange)
  | locked (pid : Nat) (status : StateChange)
  | found (pid : Nat) (status : StateChange) (c : ChildProcess)
  | emitted (pid : Nat) (c : ChildProcess)
  | leaving
deriving DecidableEq

inductive OscLabel where
  | wait (a : WaitAnswer)
  | lock
  | find
  | emit
  | skip
  | erase
  | unlock
deriving DecidableEq

/-- `DeathObserverImpl::on_sig_child`. The loop ends when `waitpid` returns `0` or
fails with `ECHILD`; any other error only starts the next round. -/
inductive OscStep (me : Nat) (k : Kernel) (o : Observer) :
    OscPc → OscLabel → Kernel → Observer → Option OscPc → Prop where
  | noMoreChildren {a k'} (hw : Waitpid k .ownGroup .wnohang a k')
      (ha : a = .nothing ∨ a = .failed .echild) : OscStep me k o .wait (.wait a) k' o none
  | stray {e k'} (hw : Waitpid k .ownGroup .wnohang (.failed e) k') (he : e ≠ .echild) :
      OscStep me k o .wait (.wait (.failed e)) k' o (some .wait)
  | reaped {pid status k'} (hw : Waitpid k .ownGroup .wnohang (.changed pid status) k') :
      OscStep me k o .wait (.wait (.changed pid status)) k' o (some (.reaped pid status))
  | lock {pid status} (hfree : o.guard = none) :
      OscStep me k o (.reaped pid status) .lock k { o with guard := some (.onSigChild me) }
        (some (.locked pid status))
  | found {pid status c} (hfind : o.children pid = some c) :
      OscStep me k o (.locked pid status) .find k o (some (.found pid status c))
  | notFound {pid status} (hfind : o.children pid = none) :
      OscStep me k o (.locked pid status) .find k o (some .leaving)
  | emit {pid status c} (hended : (wifsignaled status.word || wifexited status.word) = true) :
      OscStep me k o (.found pid status c) .emit k (o.emit c) (some (.emitted pid c))
  | skip {pid status c} (hended : (wifsignaled status.word || wifexited status.word) = false) :
      OscStep me k o (.found pid status c) .skip k o (some .leaving)
  | erase {pid c} : OscStep me k o (.emitted pid c) .erase k (o.erase pid) (some .leaving)
  | unlock : OscStep me k o .leaving .unlock k { o with guard := none } (some .wait)

/-! ## Threads around one observer -/

/-- The observer, the kernel, and the threads inside the two members. -/
structure ObserverState where
  kernel : Kernel
  observer : Observer
  adding : Nat → Option AddPc
  handling : Nat → Option OscPc

namespace ObserverState

/-- A step of thread `i` inside `add`. -/
def moveAdding (s : ObserverState) (i : Nat) (k' : Kernel) (o' : Observer)
    (pc' : Option AddPc) : ObserverState :=
  { s with kernel := k', observer := o', adding := Function.update s.adding i pc' }

/-- A step of thread `i` inside `on_sig_child`. -/
def moveHandling (s : ObserverState) (i : Nat) (k' : Kernel) (o' : Observer)
    (pc' : Option OscPc) : ObserverState :=
  { s with kernel := k', observer := o', handling := Function.update s.handling i pc' }

end ObserverState

inductive ObserverLabel where
  | kernel (l : KernelLabel)
  | callAdd (thread : Nat) (c : ChildProcess)
  | add (thread : Nat) (l : AddLabel)
  | callOnSigChild (thread : Nat)
  | onSigChild (thread : Nat) (l : OscLabel)
  | waitFor (c : ChildProcess) (flags : Wait.Flags) (a : WaitAnswer)
deriving DecidableEq

/-- One step of the kernel, of a thread inside `add` or `on_sig_child`, or of a caller
of one of the three members that reap. -/
inductive ObserverStep (s : ObserverState) : ObserverLabel → ObserverState → Prop where
  | kernel {l k'} (h : KernelStep s.kernel l k') :
      ObserverStep s (.kernel l) { s with kernel := k' }
  | callAdd {i c} (hidle : s.adding i = none) (hmade : c.Made s.kernel) :
      ObserverStep s (.callAdd i c)
        (s.moveAdding i s.kernel s.observer (some (.start c)))
  | add {i pc l k' o' pc'} (hpc : s.adding i = some pc)
      (h : AddStep i s.kernel s.observer pc l k' o' pc') :
      ObserverStep s (.add i l) (s.moveAdding i k' o' pc')
  | callOnSigChild {i} (hidle : s.handling i = none) :
      ObserverStep s (.callOnSigChild i)
        (s.moveHandling i s.kernel s.observer (some .wait))
  | onSigChild {i pc l k' o' pc'} (hpc : s.handling i = some pc)
      (h : OscStep i s.kernel s.observer pc l k' o' pc') :
      ObserverStep s (.onSigChild i l) (s.moveHandling i k' o' pc')
  | waitFor {c flags a k'} (hmade : c.Made s.kernel)
      (hw : Waitpid s.kernel (.process c.pid) flags.options a k') :
      ObserverStep s (.waitFor c flags a) { s with kernel := k' }

/-- The threads around one observer as a transition system. -/
def observerSystem : LTS ObserverState ObserverLabel where
  step := ObserverStep

/-- Before the first fork: an observer nobody has called yet. -/
def ObserverState.start (k : Kernel) (o : Observer) : ObserverState :=
  ⟨k, o, fun _ => none, fun _ => none⟩

/-! ## What holds of every run -/

variable {s s' : ObserverState} {k k' : Kernel} {o o' : Observer}

/-- A value that exists goes on existing. -/
theorem ChildProcess.Made.mono {c : ChildProcess} (h : c.Made k) (hforks : k.ForksKept k') :
    c.Made k' := by
  cases c with
  | forked pid serial => exact hforks serial pid h
  | invalid n => trivial

theorem Observer.children_insert {c d : ChildProcess} {pid : Nat}
    (h : (o.insert c).children pid = some d) :
    (pid = c.pid ∧ d = c) ∨ (pid ≠ c.pid ∧ o.children pid = some d) := by
  rcases update_cases h with ⟨hpid, hd⟩ | hold
  · exact .inl ⟨hpid, (Option.some.inj hd).symm⟩
  · exact .inr hold

theorem Observer.children_erase {d : ChildProcess} {pid q : Nat}
    (h : (o.erase q).children pid = some d) : pid ≠ q ∧ o.children pid = some d := by
  rcases update_cases h with ⟨-, hd⟩ | hold
  · cases hd
  · exact hold

/-- The child a call of `add` is about. -/
def AddPc.child : AddPc → ChildProcess
  | .start c | .locked c | .inserted c | .missed c | .emitted c | .leaving c _ => c

namespace AddStep

variable {me : Nat} {pc : AddPc} {l : AddLabel} {pc' : Option AddPc}

/-- `add` touches the kernel only through its `waitpid`. -/
theorem kernel_cases (h : AddStep me k o pc l k' o' pc') :
    k' = k ∨ ∃ a, Waitpid k (.process pc.child.pid) .wnohang a k' := by
  cases h with
  | alive hw | gone hw => exact .inr ⟨_, hw⟩
  | _ => exact .inl rfl

theorem forksKept (h : AddStep me k o pc l k' o' pc') : k.ForksKept k' := by
  rcases h.kernel_cases with rfl | ⟨a, hw⟩
  · exact fun _ _ hs => hs
  · exact hw.forksKept

/-- What is in the map after the step was there before, or has just been inserted. -/
theorem children (h : AddStep me k o pc l k' o' pc') {pid : Nat} {c : ChildProcess}
    (hc : o'.children pid = some c) :
    o.children pid = some c ∨ (pid = c.pid ∧ pc = .locked c ∧ pc' = some (.inserted c)) := by
  cases h with
  | insert =>
    rcases Observer.children_insert hc with ⟨hpid, rfl⟩ | ⟨-, hold⟩
    · exact .inr ⟨hpid, rfl, rfl⟩
    · exact .inl hold
  | erase => exact .inl (Observer.children_erase hc).2
  | _ => exact .inl hc

/-- What was in the map stays there, unless it has been announced and is erased now. -/
theorem children_kept (h : AddStep me k o pc l k' o' pc') {pid : Nat} {c : ChildProcess}
    (hc : o.children pid = some c) :
    o'.children pid = some c ∨ ∃ d, pc = .emitted d ∧ d.pid = pid := by
  cases h with
  | @insert d hnew =>
    have hpid : pid ≠ d.pid := by
      rintro rfl
      rw [hnew] at hc
      cases hc
    exact .inl ((Function.update_of_ne hpid ..).trans hc)
  | @erase d =>
    by_cases hpid : pid = d.pid
    · exact .inr ⟨d, rfl, hpid.symm⟩
    · exact .inl ((Function.update_of_ne hpid ..).trans hc)
  | _ => exact .inl hc

theorem died_mono (h : AddStep me k o pc l k' o' pc') {c : ChildProcess} (hc : c ∈ o.died) :
    c ∈ o'.died := by
  cases h with
  | emit => exact List.mem_append_left _ hc
  | _ => exact hc

/-- Whatever `add` inserts is in the map. -/
theorem inserted_cases (h : AddStep me k o pc l k' o' pc') {c : ChildProcess}
    (hc : c ∈ o'.inserted) : c ∈ o.inserted ∨ o'.children c.pid = some c := by
  cases h with
  | insert =>
    rcases List.mem_append.mp hc with hc | hc
    · exact .inl hc
    · rw [List.mem_singleton.mp hc]
      exact .inr (Function.update_self ..)
  | _ => exact .inl hc

theorem child {pc'' : AddPc} (h : AddStep me k o pc l k' o' (some pc'')) :
    pc''.child = pc.child := by
  cases h <;> rfl

end AddStep

namespace OscStep

variable {me : Nat} {pc : OscPc} {l : OscLabel} {pc' : Option OscPc}

theorem kernel_cases (h : OscStep me k o pc l k' o' pc') :
    k' = k ∨ ∃ a, Waitpid k .ownGroup .wnohang a k' := by
  cases h with
  | noMoreChildren hw | stray hw | reaped hw => exact .inr ⟨_, hw⟩
  | _ => exact .inl rfl

theorem forksKept (h : OscStep me k o pc l k' o' pc') : k.ForksKept k' := by
  rcases h.kernel_cases with rfl | ⟨a, hw⟩
  · exact fun _ _ hs => hs
  · exact hw.forksKept

theorem children_kept (h : OscStep me k o pc l k' o' pc') {pid : Nat} {c : ChildProcess}
    (hc : o.children pid = some c) :
    o'.children pid = some c ∨ ∃ d, pc = .emitted pid d := by
  cases h with
  | @erase q d =>
    by_cases hpid : pid = q
    · exact .inr ⟨d, by rw [hpid]⟩
    · exact .inl ((Function.update_of_ne hpid ..).trans hc)
  | _ => exact .inl hc

theorem died_mono (h : OscStep me k o pc l k' o' pc') {c : ChildProcess} (hc : c ∈ o.died) :
    c ∈ o'.died := by
  cases h with
  | emit => exact List.mem_append_left _ hc
  | _ => exact hc

theorem inserted_eq (h : OscStep me k o pc l k' o' pc') : o'.inserted = o.inserted := by
  cases h <;> rfl

theorem children (h : OscStep me k o pc l k' o' pc') {pid : Nat} {c : ChildProcess}
    (hc : o'.children pid = some c) : o.children pid = some c := by
  cases h with
  | erase => exact (Observer.children_erase hc).2
  | _ => exact hc

end OscStep

/-- A step changes the kernel by an event of the kernel's own or by a `waitpid`. -/
theorem ObserverStep.kernel_cases {l : ObserverLabel} (h : ObserverStep s l s') :
    s'.kernel = s.kernel ∨ (∃ kl, KernelStep s.kernel kl s'.kernel) ∨
      ∃ target opts a, Waitpid s.kernel target opts a s'.kernel := by
  cases h with
  | kernel hk => exact .inr (.inl ⟨_, hk⟩)
  | callAdd | callOnSigChild => exact .inl rfl
  | add _ hadd =>
    rcases hadd.kernel_cases with hsame | ⟨a, hw⟩
    · exact .inl hsame
    · exact .inr (.inr ⟨_, _, a, hw⟩)
  | onSigChild _ hosc =>
    rcases hosc.kernel_cases with hsame | ⟨a, hw⟩
    · exact .inl hsame
    · exact .inr (.inr ⟨_, _, a, hw⟩)
  | waitFor _ hw => exact .inr (.inr ⟨_, _, _, hw⟩)

/-- Every fork stays on record. -/
theorem ObserverStep.forksKept {l : ObserverLabel} (h : ObserverStep s l s') :
    s.kernel.ForksKept s'.kernel := by
  rcases h.kernel_cases with hsame | ⟨kl, hk⟩ | ⟨target, opts, a, hw⟩
  · rw [hsame]
    exact fun _ _ hs => hs
  · exact hk.forksKept
  · exact hw.forksKept

/-- Ended children stay ended. -/
theorem ObserverStep.dead {l : ObserverLabel} (h : ObserverStep s l s') {pid serial : Nat}
    (hd : s.kernel.Dead pid serial) : s'.kernel.Dead pid serial := by
  rcases h.kernel_cases with hsame | ⟨kl, hk⟩ | ⟨target, opts, a, hw⟩
  · rw [hsame]
    exact hd
  · exact hk.dead hd
  · exact hw.dead hd

/-- Reaped children stay reaped. -/
theorem ObserverStep.reaped {l : ObserverLabel} (h : ObserverStep s l s') {serial : Nat}
    (hr : serial ∈ s.kernel.reaped) : serial ∈ s'.kernel.reaped := by
  rcases h.kernel_cases with hsame | ⟨kl, hk⟩ | ⟨target, opts, a, hw⟩
  · rw [hsame]
    exact hr
  · rw [hk.reaped]
    exact hr
  · exact hw.reaped hr

/-- What a thread inside `on_sig_child` holds is what it was told: the status of an
ended child, and a value the map had under the pid. -/
def OscPc.Sound (k : Kernel) : OscPc → Prop
  | .wait | .leaving => True
  | .reaped _ status | .locked _ status => ∃ t, status = .terminated t
  | .found pid status c => (∃ t, status = .terminated t) ∧ c.pid = pid ∧ c.Made k
  | .emitted pid c => c.pid = pid ∧ c.Made k

theorem OscPc.Sound.mono {pc : OscPc} (h : pc.Sound k) (hforks : k.ForksKept k') :
    pc.Sound k' := by
  cases pc with
  | found pid status c => exact ⟨h.1, h.2.1, h.2.2.mono hforks⟩
  | emitted pid c => exact ⟨h.1, h.2.mono hforks⟩
  | _ => exact h

namespace ObserverState

/-- The map and the threads hold only values that exist, the map under their own pids,
and the kernel's records agree. This needs no assumption on pids. -/
structure Sound (s : ObserverState) : Prop where
  wf : s.kernel.WF
  mapped : ∀ pid c, s.observer.children pid = some c → c.pid = pid ∧ c.Made s.kernel
  adding : ∀ i pc, s.adding i = some pc → pc.child.Made s.kernel
  handling : ∀ i pc, s.handling i = some pc → pc.Sound s.kernel

theorem Sound.start (hk : k.Fresh) : (start k .initial).Sound :=
  ⟨hk.wf, nofun, nofun, nofun⟩

theorem Sound.moveAdding (h : s.Sound) {i : Nat} {pc' : Option AddPc} (hwf : k'.WF)
    (hforks : s.kernel.ForksKept k')
    (hmap : ∀ pid c, o'.children pid = some c → c.pid = pid ∧ c.Made k')
    (hpc : ∀ pc, pc' = some pc → pc.child.Made k') :
    (s.moveAdding i k' o' pc').Sound where
  wf := hwf
  mapped := hmap
  adding := forall_update (fun j pc _ hj => (h.adding j pc hj).mono hforks) hpc
  handling j pc hj := (h.handling j pc hj).mono hforks

theorem Sound.moveHandling (h : s.Sound) {i : Nat} {pc' : Option OscPc} (hwf : k'.WF)
    (hforks : s.kernel.ForksKept k')
    (hmap : ∀ pid c, o'.children pid = some c → c.pid = pid ∧ c.Made k')
    (hpc : ∀ pc, pc' = some pc → pc.Sound k') :
    (s.moveHandling i k' o' pc').Sound where
  wf := hwf
  mapped := hmap
  adding j pc hj := (h.adding j pc hj).mono hforks
  handling := forall_update (fun j pc _ hj => (h.handling j pc hj).mono hforks) hpc

theorem Sound.setKernel (h : s.Sound) (hwf : k'.WF) (hforks : s.kernel.ForksKept k') :
    Sound { s with kernel := k' } where
  wf := hwf
  mapped pid c hc := ⟨(h.mapped pid c hc).1, (h.mapped pid c hc).2.mono hforks⟩
  adding i pc hpc := (h.adding i pc hpc).mono hforks
  handling i pc hpc := (h.handling i pc hpc).mono hforks

theorem Sound.addStep (h : s.Sound) {i : Nat} {pc : AddPc} {l : AddLabel} {pc' : Option AddPc}
    (hpc : s.adding i = some pc) (hstep : AddStep i s.kernel s.observer pc l k' o' pc') :
    (s.moveAdding i k' o' pc').Sound := by
  have hwf : k'.WF := by
    rcases hstep.kernel_cases with rfl | ⟨a, hw⟩
    · exact h.wf
    · exact h.wf.waitpid hw
  have hmade : pc.child.Made k' := (h.adding i pc hpc).mono hstep.forksKept
  refine h.moveAdding hwf hstep.forksKept (fun pid c hc => ?_) fun pc'' hpc' => ?_
  · rcases hstep.children hc with hc | ⟨rfl, rfl, -⟩
    · exact ⟨(h.mapped pid c hc).1, (h.mapped pid c hc).2.mono hstep.forksKept⟩
    · exact ⟨rfl, hmade⟩
  · subst hpc'
    rw [hstep.child]
    exact hmade

theorem Sound.oscStep (h : s.Sound) {i : Nat} {pc : OscPc} {l : OscLabel} {pc' : Option OscPc}
    (hpc : s.handling i = some pc) (hstep : OscStep i s.kernel s.observer pc l k' o' pc') :
    (s.moveHandling i k' o' pc').Sound := by
  have hwf : k'.WF := by
    rcases hstep.kernel_cases with rfl | ⟨a, hw⟩
    · exact h.wf
    · exact h.wf.waitpid hw
  have hsound := h.handling i pc hpc
  refine h.moveHandling hwf hstep.forksKept (fun pid c hc => ?_) fun pc'' hpc' => ?_
  · have hc' := hstep.children hc
    exact ⟨(h.mapped pid c hc').1, (h.mapped pid c hc').2.mono hstep.forksKept⟩
  · subst hpc'
    cases hstep with
    | reaped hw => exact hw.terminated_of_wnohang
    | lock => exact hsound
    | found hfind => exact ⟨hsound, h.mapped _ _ hfind⟩
    | emit => exact hsound.2
    | stray | notFound | skip | erase | unlock => trivial

theorem Sound.step {l : ObserverLabel} (h : s.Sound) (hstep : ObserverStep s l s') :
    s'.Sound := by
  cases hstep with
  | kernel hk => exact h.setKernel (h.wf.step hk) hk.forksKept
  | callAdd hidle hmade =>
    exact h.moveAdding h.wf (fun _ _ hs => hs) h.mapped (by rintro _ ⟨⟩; exact hmade)
  | add hpc hadd => exact h.addStep hpc hadd
  | callOnSigChild hidle =>
    exact h.moveHandling h.wf (fun _ _ hs => hs) h.mapped (by rintro _ ⟨⟩; trivial)
  | onSigChild hpc hosc => exact h.oscStep hpc hosc
  | waitFor hmade hw => exact h.setKernel (h.wf.waitpid hw) hw.forksKept

/-- Whoever stands between emission and erasure has announced its child. -/
structure Announced (s : ObserverState) : Prop where
  adding : ∀ i pc, s.adding i = some pc → ∀ c, pc = .emitted c → c ∈ s.observer.died
  handling : ∀ i pc, s.handling i = some pc → ∀ pid c, pc = .emitted pid c →
    c ∈ s.observer.died

theorem Announced.addStep (h : s.Announced) {i : Nat} {pc : AddPc} {l : AddLabel}
    {pc' : Option AddPc} (hstep : AddStep i s.kernel s.observer pc l k' o' pc') :
    (s.moveAdding i k' o' pc').Announced := by
  refine ⟨forall_update (fun j pc _ hj c hc => hstep.died_mono (h.adding j pc hj c hc)) ?_,
    fun j pc hj pid c hc => hstep.died_mono (h.handling j pc hj pid c hc)⟩
  rintro _ rfl c rfl
  cases hstep with
  | emit => exact List.mem_append_right _ (List.mem_singleton_self c)

theorem Announced.oscStep (h : s.Announced) {i : Nat} {pc : OscPc} {l : OscLabel}
    {pc' : Option OscPc} (hstep : OscStep i s.kernel s.observer pc l k' o' pc') :
    (s.moveHandling i k' o' pc').Announced := by
  refine ⟨fun j pc hj c hc => hstep.died_mono (h.adding j pc hj c hc),
    forall_update (fun j pc _ hj pid c hc => hstep.died_mono (h.handling j pc hj pid c hc)) ?_⟩
  rintro _ rfl pid c rfl
  cases hstep with
  | emit => exact List.mem_append_right _ (List.mem_singleton_self c)

theorem Announced.step {l : ObserverLabel} (h : s.Announced) (hstep : ObserverStep s l s') :
    s'.Announced := by
  cases hstep with
  | kernel | waitFor => exact ⟨h.adding, h.handling⟩
  | callAdd =>
    exact ⟨forall_update (fun j pc _ => h.adding j pc) (by rintro _ ⟨⟩ c ⟨⟩), h.handling⟩
  | add _ hadd => exact h.addStep hadd
  | callOnSigChild =>
    exact ⟨h.adding, forall_update (fun j pc _ => h.handling j pc) (by rintro _ ⟨⟩ pid c ⟨⟩)⟩
  | onSigChild _ hosc => exact h.oscStep hosc

end ObserverState

/-! ## The mutex -/

/-- The thread is between its `lock` and its `unlock`. -/
def AddPc.critical : AddPc → Bool
  | .start _ => false
  | _ => true

def OscPc.critical : OscPc → Bool
  | .wait | .reaped _ _ => false
  | _ => true

/-- A step of `add` takes the free mutex, gives it back, or leaves it alone and stays on
its side. -/
theorem AddStep.guard_cases {me : Nat} {pc : AddPc} {l : AddLabel} {pc' : Option AddPc}
    (h : AddStep me k o pc l k' o' pc') :
    (o.guard = none ∧ o'.guard = some (.add me)) ∨
    (pc.critical = true ∧ pc' = none) ∨
    (o'.guard = o.guard ∧ ∀ b, pc' = some b → b.critical = pc.critical) := by
  cases h with
  | lock _ hfree => exact .inl ⟨hfree, rfl⟩
  | unlock => exact .inr (.inl ⟨rfl, rfl⟩)
  | invalidPid => exact .inr (.inr ⟨rfl, nofun⟩)
  | _ => exact .inr (.inr ⟨rfl, by rintro _ ⟨⟩; rfl⟩)

theorem OscStep.guard_cases {me : Nat} {pc : OscPc} {l : OscLabel} {pc' : Option OscPc}
    (h : OscStep me k o pc l k' o' pc') :
    (o.guard = none ∧ o'.guard = some (.onSigChild me)) ∨
    (pc.critical = true ∧ pc' = some .wait) ∨
    (o'.guard = o.guard ∧ ∀ b, pc' = some b → b.critical = pc.critical) := by
  cases h with
  | lock hfree => exact .inl ⟨hfree, rfl⟩
  | unlock => exact .inr (.inl ⟨rfl, rfl⟩)
  | noMoreChildren => exact .inr (.inr ⟨rfl, nofun⟩)
  | _ => exact .inr (.inr ⟨rfl, by rintro _ ⟨⟩; rfl⟩)

namespace ObserverState

/-- Whoever is between `lock` and `unlock` holds the mutex. -/
structure Guarded (s : ObserverState) : Prop where
  adding : ∀ i pc, s.adding i = some pc → pc.critical = true →
    s.observer.guard = some (.add i)
  handling : ∀ i pc, s.handling i = some pc → pc.critical = true →
    s.observer.guard = some (.onSigChild i)

theorem Guarded.addStep (h : s.Guarded) {i : Nat} {pc : AddPc} {l : AddLabel}
    {pc' : Option AddPc} (hpc : s.adding i = some pc)
    (hstep : AddStep i s.kernel s.observer pc l k' o' pc') :
    (s.moveAdding i k' o' pc').Guarded := by
  -- nobody else loses the mutex to this step
  have hothers : ∀ g, s.observer.guard = some g → g ≠ .add i → o'.guard = some g := by
    intro g hg hne
    rcases hstep.guard_cases with ⟨hfree, -⟩ | ⟨hcrit, -⟩ | ⟨hsame, -⟩
    · rw [hfree] at hg
      cases hg
    · rw [h.adding i pc hpc hcrit] at hg
      exact absurd (Option.some.inj hg).symm hne
    · rw [hsame, hg]
  refine ⟨forall_update (fun j b hji hj hb => ?_) fun b hb hcrit => ?_,
    fun j b hj hb => hothers _ (h.handling j b hj hb) nofun⟩
  · exact hothers _ (h.adding j b hj hb) fun heq => hji (Locker.add.inj heq)
  · rcases hstep.guard_cases with ⟨-, htaken⟩ | ⟨-, hnone⟩ | ⟨hsame, hside⟩
    · exact htaken
    · rw [hnone] at hb
      cases hb
    · rw [hside b hb] at hcrit
      exact hsame.trans (h.adding i pc hpc hcrit)

theorem Guarded.oscStep (h : s.Guarded) {i : Nat} {pc : OscPc} {l : OscLabel}
    {pc' : Option OscPc} (hpc : s.handling i = some pc)
    (hstep : OscStep i s.kernel s.observer pc l k' o' pc') :
    (s.moveHandling i k' o' pc').Guarded := by
  have hothers : ∀ g, s.observer.guard = some g → g ≠ .onSigChild i → o'.guard = some g := by
    intro g hg hne
    rcases hstep.guard_cases with ⟨hfree, -⟩ | ⟨hcrit, -⟩ | ⟨hsame, -⟩
    · rw [hfree] at hg
      cases hg
    · rw [h.handling i pc hpc hcrit] at hg
      exact absurd (Option.some.inj hg).symm hne
    · rw [hsame, hg]
  refine ⟨fun j b hj hb => hothers _ (h.adding j b hj hb) nofun,
    forall_update (fun j b hji hj hb => ?_) fun b hb hcrit => ?_⟩
  · exact hothers _ (h.handling j b hj hb) fun heq => hji (Locker.onSigChild.inj heq)
  · rcases hstep.guard_cases with ⟨-, htaken⟩ | ⟨-, hwait⟩ | ⟨hsame, hside⟩
    · exact htaken
    · rw [hwait] at hb
      cases hb
      cases hcrit
    · rw [hside b hb] at hcrit
      exact hsame.trans (h.handling i pc hpc hcrit)

theorem Guarded.step {l : ObserverLabel} (h : s.Guarded) (hstep : ObserverStep s l s') :
    s'.Guarded := by
  cases hstep with
  | kernel | waitFor => exact ⟨h.adding, h.handling⟩
  | callAdd =>
    exact ⟨forall_update (fun j pc _ => h.adding j pc) (by rintro _ ⟨⟩ ⟨⟩), h.handling⟩
  | add hpc hadd => exact h.addStep hpc hadd
  | callOnSigChild =>
    exact ⟨h.adding, forall_update (fun j pc _ => h.handling j pc) (by rintro _ ⟨⟩ ⟨⟩)⟩
  | onSigChild hpc hosc => exact h.oscStep hpc hosc

end ObserverState

end ProcessCpp.Core
