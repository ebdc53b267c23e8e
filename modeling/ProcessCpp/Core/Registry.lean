import ProcessCpp.Base.Monitor
import ProcessCpp.Core.DeathObserver

/-!
# The death observer as a registry (child_process.cpp:65–139)

What a `DeathObserver` is for can be said without threads: a map from pids to children, and
the list of those that were announced. `add`, `has` and the part of `on_sig_child` behind its
`waitpid` each change it at once.

The code does it in steps, under `guard`, with a `waitpid` and the subscribers of `child_died`
in between. A subscriber is code of the user: it may fork a replacement, and then the child of
that fork has a copy of the observer whose `guard` it holds itself.

- `Registry`, `Registry.apply`, `Registry.replay`: the registry, one call at a time;
- `RegistryStep`, `observerMonitor`: the steps of `AddStep` and `OscStep` between `lock` and
  `unlock`, and those of `has`; `waitpid` may answer anything;
- `observer_calls_serial`: the code refines the registry, in every tree of processes;
- `observer_calls_complete_iff`: a call blocks for good only if its process was forked while
  `guard` was held, or a subscriber has called the observer.
-/

namespace ProcessCpp.Core

open ProcessCpp.Base ProcessCpp.Posix

/-! ## The registry -/

/-- The children that are watched, and those that were announced. -/
structure Registry where
  children : Nat → Option ChildProcess
  died : List ChildProcess

/-- A call; `handle` is what `on_sig_child` does with a pid and a status it got. -/
inductive RegistryOp where
  | add (c : ChildProcess)
  | handle (pid : Nat) (status : StateChange)
  | has (c : ChildProcess)

inductive RegistryResult where
  | added (result : Bool)
  | handled
  | answered (result : Bool)

namespace Registry

def empty : Registry := ⟨fun _ => none, []⟩

def put (R : Registry) (c : ChildProcess) : Registry :=
  { R with children := Function.update R.children c.pid (some c) }

def drop (R : Registry) (pid : Nat) : Registry :=
  { R with children := Function.update R.children pid none }

def announce (R : Registry) (c : ChildProcess) : Registry := { R with died := R.died ++ [c] }

/-- What a call with this result makes of the registry; `none` if it cannot have it. An `add`
that returns `false` has found the pid in the map, or has found the child dead. -/
def apply (R : Registry) : RegistryOp → RegistryResult → Option Registry
  | .add c, .added true => if (R.children c.pid).isSome then none else some (R.put c)
  | .add c, .added false => if (R.children c.pid).isSome then some R else some (R.announce c)
  | .handle pid status, .handled =>
    match R.children pid with
    | some c =>
      if wifsignaled status.word || wifexited status.word then
        some ((R.announce c).drop pid)
      else
        some R
    | none => some R
  | .has c, .answered result => if result = (R.children c.pid).isSome then some R else none
  | _, _ => none

/-- Calls one after the other. -/
def replay (R : Registry) : List (RegistryOp × RegistryResult) → Option Registry
  | [] => some R
  | (op, r) :: done => (R.apply op r).bind fun R' => R'.replay done

theorem replay_append (R : Registry) (done done' : List (RegistryOp × RegistryResult)) :
    R.replay (done ++ done') = (R.replay done).bind fun R' => R'.replay done' := by
  induction done generalizing R with
  | nil => rfl
  | cons e done ih =>
    show (R.apply e.1 e.2).bind _ = Option.bind ((R.apply e.1 e.2).bind _) _
    rw [Option.bind_assoc]
    exact congrArg _ (funext fun R' => ih R')

end Registry

/-- The observer as its users see it. -/
def Observer.registry (o : Observer) : Registry := ⟨o.children, o.died⟩

/-! ## The calls in steps -/

/-- Where a call stands, once it has the mutex. -/
inductive RegistryLoc where
  | add (pc : AddPc)
  | handle (pc : OscPc)
  | has (c : ChildProcess)
  | answer (result : Bool)

/-- One step of a call between its `lock` and its `unlock`. -/
inductive RegistryStep (o : Observer) : RegistryLoc → Observer → RegistryLoc → Prop where
  | add {me k pc l k' o' pc'} (h : AddStep me k o pc l k' o' (some pc'))
      (hcrit : pc.critical = true) : RegistryStep o (.add pc) o' (.add pc')
  | handle {me k pc l k' o' pc'} (h : OscStep me k o pc l k' o' (some pc'))
      (hcrit : pc.critical = true) (hcrit' : pc'.critical = true) :
      RegistryStep o (.handle pc) o' (.handle pc')
  | has {c} : RegistryStep o (.has c) o (.answer (o.has c))

/-- The observer behind `guard`. While `child_died` is emitted, its subscribers run. -/
def observerMonitor : Monitor Observer RegistryOp RegistryResult RegistryLoc where
  start
    | .add c => .add (.locked c)
    | .handle pid status => .handle (.locked pid status)
    | .has c => .has c
  step o l o' l' := RegistryStep o l o' l'
  result
    | .add (.leaving _ result) => some (.added result)
    | .handle .leaving => some .handled
    | .answer result => some (.answered result)
    | _ => none
  callback
    | .add (.emitted _) | .handle (.emitted _ _) => True
    | _ => False

/-! ## A call alone does what it does at once -/

namespace Registry

/-- Where a call that began with `o` can be. -/
def Reached (o : Observer) (op : RegistryOp) (o' : Observer) : RegistryLoc → Prop
  | .add (.start _) => False
  | .add (.locked c) => op = .add c ∧ o' = o
  | .add (.inserted c) | .add (.missed c) =>
      op = .add c ∧ o.children c.pid = none ∧ o' = o.insert c
  | .add (.emitted c) => op = .add c ∧ o.children c.pid = none ∧ o' = (o.insert c).emit c
  | .add (.leaving _ result) => o.registry.apply op (.added result) = some o'.registry
  | .handle .wait | .handle (.reaped _ _) => False
  | .handle (.locked pid status) => op = .handle pid status ∧ o' = o
  | .handle (.found pid status c) =>
      op = .handle pid status ∧ o.children pid = some c ∧ o' = o
  | .handle (.emitted pid c) => ∃ status, op = .handle pid status ∧ o.children pid = some c ∧
      (wifsignaled status.word || wifexited status.word) = true ∧ o' = o.emit c
  | .handle .leaving => o.registry.apply op .handled = some o'.registry
  | .has c => op = .has c ∧ o' = o
  | .answer result => o.registry.apply op (.answered result) = some o'.registry

variable {o o' o'' : Observer} {op : RegistryOp} {l l' : RegistryLoc}

theorem Reached.addStep {me : Nat} {k k' : Kernel} {pc pc' : AddPc} {al : AddLabel}
    (h : Reached o op o' (.add pc)) (hstep : AddStep me k o' pc al k' o'' (some pc'))
    (hcrit : pc.critical = true) : Reached o op o'' (.add pc') := by
  cases hstep with
  | lock => cases hcrit
  | insert hnew =>
    obtain ⟨rfl, rfl⟩ := h
    exact ⟨rfl, hnew, rfl⟩
  | present hold =>
    obtain ⟨rfl, rfl⟩ := h
    simp only [Reached, apply, Observer.registry, hold, Option.isSome_some, if_true]
  | alive =>
    obtain ⟨rfl, hnew, rfl⟩ := h
    simp only [Reached, apply, Observer.registry, hnew, Option.isSome_none, Bool.false_eq_true,
      if_false]
    rfl
  | gone => exact h
  | emit =>
    obtain ⟨rfl, hnew, rfl⟩ := h
    exact ⟨rfl, hnew, rfl⟩
  | @erase c =>
    obtain ⟨rfl, hnew, rfl⟩ := h
    -- the entry that was put in is taken out again
    have hback : Function.update (Function.update o.children c.pid (some c)) c.pid none =
        o.children := by
      rw [Function.update_idem, ← hnew, Function.update_eq_self]
    simp only [Reached, apply, Observer.registry, hnew, Option.isSome_none, Bool.false_eq_true,
      if_false]
    show some _ = some (Registry.mk (Function.update (Function.update o.children c.pid (some c))
      c.pid none) (o.died ++ [c]))
    rw [hback]
    rfl

theorem Reached.oscStep {me : Nat} {k k' : Kernel} {pc pc' : OscPc} {ol : OscLabel}
    (h : Reached o op o' (.handle pc)) (hstep : OscStep me k o' pc ol k' o'' (some pc'))
    (hcrit : pc.critical = true) (hcrit' : pc'.critical = true) :
    Reached o op o'' (.handle pc') := by
  cases hstep with
  | stray | reaped | lock => cases hcrit
  | unlock => cases hcrit'
  | found hfind =>
    obtain ⟨rfl, rfl⟩ := h
    exact ⟨rfl, hfind, rfl⟩
  | notFound hfind =>
    obtain ⟨rfl, rfl⟩ := h
    simp only [Reached, apply, Observer.registry, hfind]
  | emit hended =>
    obtain ⟨rfl, hfind, rfl⟩ := h
    exact ⟨_, rfl, hfind, hended, rfl⟩
  | skip hended =>
    obtain ⟨rfl, hfind, rfl⟩ := h
    simp only [Reached, apply, Observer.registry, hfind, hended, Bool.false_eq_true, if_false]
  | erase =>
    obtain ⟨status, rfl, hfind, hended, rfl⟩ := h
    simp only [Reached, apply, Observer.registry, hfind, hended, if_true]
    rfl

theorem Reached.step (h : Reached o op o' l) (hstep : RegistryStep o' l o'' l') :
    Reached o op o'' l' := by
  cases hstep with
  | add hadd hcrit => exact h.addStep hadd hcrit
  | handle hosc hcrit hcrit' => exact h.oscStep hosc hcrit hcrit'
  | has =>
    obtain ⟨rfl, rfl⟩ := h
    exact if_pos rfl

theorem reached_of_steps (h : observerMonitor.Steps o (observerMonitor.start op) o' l) :
    Reached o op o' l := by
  induction h with
  | refl => cases op <;> exact ⟨rfl, rfl⟩
  | tail _ hstep ih => exact ih.step hstep

/-- A call from its beginning to its end is one change of the registry. -/
theorem apply_of_exec {r : RegistryResult} (h : observerMonitor.Exec o op r o') :
    o.registry.apply op r = some o'.registry := by
  obtain ⟨l, hsteps, hr⟩ := h
  have hreached := reached_of_steps hsteps
  cases l with
  | add pc =>
    cases pc with
    | leaving c result =>
      cases hr
      exact hreached
    | _ => cases hr
  | handle pc =>
    cases pc with
    | leaving =>
      cases hr
      exact hreached
    | _ => cases hr
  | has c => cases hr
  | answer result =>
    cases hr
    exact hreached

theorem replay_of_serial {done : List (RegistryOp × RegistryResult)}
    (h : observerMonitor.Serial o done o') : o.registry.replay done = some o'.registry := by
  induction h with
  | nil => rfl
  | snoc _ hexec ih =>
    rw [replay_append, ih, Option.bind_some]
    show ((Observer.registry _).apply _ _).bind _ = _
    rw [apply_of_exec hexec]
    rfl

/-! ## Calls that have begun can come to their end -/

/-- A step of `add`, whatever the kernel is like. -/
theorem canFinish_of_add {al : AddLabel} {pc pc' : AddPc}
    (hstep : AddStep 0 .initOnly o pc al .initOnly o' (some pc')) (hcrit : pc.critical = true)
    (h : observerMonitor.CanFinish o' (.add pc')) : observerMonitor.CanFinish o (.add pc) :=
  .of_step (RegistryStep.add hstep hcrit) h

theorem canFinish_of_handle {ol : OscLabel} {pc pc' : OscPc}
    (hstep : OscStep 0 .initOnly o pc ol .initOnly o' (some pc')) (hcrit : pc.critical = true)
    (hcrit' : pc'.critical = true) (h : observerMonitor.CanFinish o' (.handle pc')) :
    observerMonitor.CanFinish o (.handle pc) :=
  .of_step (RegistryStep.handle hstep hcrit hcrit') h

theorem add_finishes (o : Observer) (pc : AddPc) (hcrit : pc.critical = true) :
    observerMonitor.CanFinish o (.add pc) := by
  have hemitted : ∀ o c, observerMonitor.CanFinish o (.add (.emitted c)) :=
    fun o c => canFinish_of_add .erase rfl (.of_result rfl)
  have hmissed : ∀ o c, observerMonitor.CanFinish o (.add (.missed c)) :=
    fun o c => canFinish_of_add .emit rfl (hemitted _ c)
  -- `waitpid` always has an answer, if only that it was interrupted
  have hinserted : ∀ o c, observerMonitor.CanFinish o (.add (.inserted c)) :=
    fun o c => canFinish_of_add (.gone (.failed (e := .eintr) nofun) nofun) rfl (hmissed o c)
  cases pc with
  | start c => cases hcrit
  | locked c =>
    cases hold : o.children c.pid with
    | none => exact canFinish_of_add (.insert hold) rfl (hinserted _ c)
    | some d => exact canFinish_of_add (.present hold) rfl (.of_result rfl)
  | inserted c => exact hinserted o c
  | missed c => exact hmissed o c
  | emitted c => exact hemitted o c
  | leaving c result => exact .of_result rfl

theorem handle_finishes (o : Observer) (pc : OscPc) (hcrit : pc.critical = true) :
    observerMonitor.CanFinish o (.handle pc) := by
  have hleaving : ∀ o, observerMonitor.CanFinish o (.handle .leaving) := fun o => .of_result rfl
  have hemitted : ∀ o pid c, observerMonitor.CanFinish o (.handle (.emitted pid c)) :=
    fun o pid c => canFinish_of_handle .erase rfl rfl (hleaving _)
  have hfound : ∀ o pid status c, observerMonitor.CanFinish o (.handle (.found pid status c)) := by
    intro o pid status c
    cases hended : wifsignaled status.word || wifexited status.word with
    | true => exact canFinish_of_handle (.emit hended) rfl rfl (hemitted _ pid c)
    | false => exact canFinish_of_handle (.skip hended) rfl rfl (hleaving o)
  cases pc with
  | wait | reaped => cases hcrit
  | locked pid status =>
    cases hfind : o.children pid with
    | none => exact canFinish_of_handle (.notFound hfind) rfl rfl (hleaving o)
    | some c => exact canFinish_of_handle (.found hfind) rfl rfl (hfound o pid status c)
  | found pid status c => exact hfound o pid status c
  | emitted pid c => exact hemitted o pid c
  | leaving => exact hleaving o

theorem observerMonitor_finishes : observerMonitor.Finishes := by
  intro o op o' l hsteps
  have hreached := reached_of_steps hsteps
  cases l with
  | add pc =>
    refine add_finishes o' pc ?_
    cases pc with
    | start c => exact hreached.elim
    | _ => rfl
  | handle pc =>
    refine handle_finishes o' pc ?_
    cases pc with
    | wait | reaped => exact hreached.elim
    | _ => rfl
  | has c => exact .of_step RegistryStep.has (.of_result rfl)
  | answer result => exact .of_result rfl

end Registry

/-! ## The calls of all threads -/

/-- The processes around a copy of the observer, and what they do. -/
abbrev ObserverFamily : Type :=
  ProcessKind.Family Unit (Monitor.Proc Observer RegistryOp RegistryResult RegistryLoc)

abbrev ObserverFamilyLabel : Type := ProcessKind.Label (Monitor.Label RegistryOp) Nat

/-- **The observer is a registry**: in every tree of processes with any number of threads in
`add`, `has` and `on_sig_child`, whatever `waitpid` answers and as long as the subscribers
return, the calls completed on the line of descent of a process, in the order in which they
released `guard`, have the results they have on the registry one after the other; and while no
call is inside, the map and the announcements are those of the registry. -/
theorem observer_calls_serial (root : Nat) (ls : List ObserverFamilyLabel) (F : ObserverFamily)
    (h : observerMonitor.kind.system.Run (Monitor.family root .initial) ls F) (p : Nat)
    (s : Monitor.Proc Observer RegistryOp RegistryResult RegistryLoc) (hp : F.procs p = some s) :
    ∃ R, Registry.empty.replay s.done = some R ∧ (s.guard = none → s.value.registry = R) := by
  obtain ⟨o, hserial, hfree⟩ := Monitor.serial_of_run h hp
  refine ⟨o.registry, Registry.replay_of_serial hserial, fun hnone => ?_⟩
  rw [hfree hnone]

/-- A child is added and dies; while its death is handled, another thread asks for it, and the
subscriber that is told forks. -/
def forkInSubscriber : List ObserverFamilyLabel :=
  [.proc 1 (.call 0 (.add (.forked 5 0))), .proc 1 (.lock 0), .proc 1 (.step 0),
    .proc 1 (.step 0), .proc 1 (.unlock 0),
    .proc 1 (.call 0 (.handle 5 (.terminated (.exited 0)))), .proc 1 (.call 1 (.has (.forked 5 0))),
    .proc 1 (.lock 0), .proc 1 (.step 0), .proc 1 (.step 0), .fork 1 9 0, .proc 1 (.step 0),
    .proc 1 (.unlock 0), .proc 1 (.lock 1), .proc 1 (.step 1), .proc 1 (.unlock 1),
    .proc 9 (.call 3 (.has (.forked 5 0)))]

theorem forkInSubscriber_run :
    ∃ F, observerMonitor.kind.system.Run (Monitor.family 1 .initial) forkInSubscriber F ∧
      (∃ s, F.procs 1 = some s ∧ s.guard = none ∧ s.value.died = [.forked 5 0] ∧
        s.done = [(.add (.forked 5 0), .added true),
          (.handle 5 (.terminated (.exited 0)), .handled),
          (.has (.forked 5 0), .answered false)]) ∧
      ∃ s, F.procs 9 = some s ∧ s.ended = false ∧
        s.threads 3 = some (.waiting (.has (.forked 5 0))) ∧ s.guard = some 0 ∧
        s.threads 0 = some .captive := by
  have hrunning : ∀ pid c t, (Kernel.initOnly.fork 5).slots pid = .child c →
      (WaitTarget.process 5).Selects pid c → c.phase ≠ .zombie t := by
    rintro _ c t hslot rfl
    cases hslot
    exact nofun
  open ProcessKind in
  refine ⟨_, .cons (Step.alone rfl ⟨.call rfl, rfl⟩) <|
    .cons (Step.alone rfl ⟨.lock rfl rfl, rfl⟩) <|
    .cons (Step.alone rfl ⟨.step rfl (.add (@AddStep.insert 0 .initOnly _ _ rfl) rfl), rfl⟩) <|
    .cons (Step.alone rfl ⟨.step rfl (.add (@AddStep.alive 0 _ _ _ _
      (.nothing rfl ⟨5, _, rfl, rfl⟩ hrunning)) rfl), rfl⟩) <|
    .cons (Step.alone rfl ⟨.unlock rfl rfl, rfl⟩) <|
    .cons (Step.alone rfl ⟨.call rfl, rfl⟩) <| .cons (Step.alone rfl ⟨.call rfl, rfl⟩) <|
    .cons (Step.alone rfl ⟨.lock rfl rfl, rfl⟩) <|
    .cons (Step.alone rfl ⟨.step rfl (.handle (@OscStep.found 0 .initOnly _ _ _ _ rfl) rfl rfl),
      rfl⟩) <|
    .cons (Step.alone rfl ⟨.step rfl (.handle (@OscStep.emit 0 .initOnly _ _ _ _ rfl) rfl rfl),
      rfl⟩) <|
    .cons (.fork rfl rfl ⟨rfl, .inr (.inr ⟨_, _, rfl, trivial⟩), rfl⟩) <|
    .cons (Step.alone rfl ⟨.step rfl (.handle (@OscStep.erase 0 .initOnly _ _ _) rfl rfl), rfl⟩) <|
    .cons (Step.alone rfl ⟨.unlock rfl rfl, rfl⟩) <|
    .cons (Step.alone rfl ⟨.lock rfl rfl, rfl⟩) <|
    .cons (Step.alone rfl ⟨.step rfl .has, rfl⟩) <|
    .cons (Step.alone rfl ⟨.unlock rfl rfl, rfl⟩) <|
    .cons (Step.alone rfl ⟨.call rfl, rfl⟩) (.nil _),
    ⟨_, rfl, rfl, rfl, rfl⟩, _, rfl, rfl, rfl, rfl, rfl⟩

theorem observer_calls_serial_forkInSubscriber :
    ∃ F s R, observerMonitor.kind.system.Run (Monitor.family 1 .initial) forkInSubscriber F ∧
      F.procs 1 = some s ∧ Registry.empty.replay s.done = some R ∧ s.value.registry = R ∧
      R.died = [.forked 5 0] ∧ R.children 5 = none := by
  obtain ⟨F, hrun, ⟨s, hp, hfree, hdied, hdone⟩, -⟩ := forkInSubscriber_run
  obtain ⟨R, hreplay, hvalue⟩ := observer_calls_serial 1 forkInSubscriber F hrun 1 s hp
  have hR := hvalue hfree
  refine ⟨F, s, R, hrun, hp, hreplay, hR, ?_, ?_⟩
  · rw [← hR]
    exact hdied
  · rw [hdone] at hreplay
    cases hreplay
    rfl

/-- **A call of the observer blocks for good only behind a lost `guard`**: in every tree of
processes, a call of `add` or `has`, or an `on_sig_child` with a status in its hands, that
waits for `guard` can be completed if and only if `guard` is free or held by a thread that is
inside, which one that waits for itself in its own subscriber is not; and this is so in all
processes if and only if each fork was made while `guard` was free, so by no subscriber, and no
subscriber called the observer. -/
theorem observer_calls_complete_iff (root : Nat) (ls : List ObserverFamilyLabel)
    (F : ObserverFamily)
    (h : observerMonitor.kind.system.Run (Monitor.family root .initial) ls F) :
    (∀ p s t op, F.procs p = some s → s.ended = false → s.threads t = some (.waiting op) →
        (observerMonitor.Completes s t ↔ Monitor.Releasable s)) ∧
      (F.Forall Monitor.Releasable ↔ (observerMonitor.kind.system.restrict
        Monitor.Careful).Run (Monitor.family root .initial) ls F) := by
  refine ⟨fun p s t op hp hlive hpc => ?_, Monitor.allReleasable_iff h⟩
  exact Monitor.completes_iff Registry.observerMonitor_finishes (Monitor.ok_of_run h hp) hlive hpc

/-- In the child of the fork that the subscriber has made, no call can be completed. -/
theorem observer_calls_complete_iff_forkInSubscriber :
    ∃ F s, observerMonitor.kind.system.Run (Monitor.family 1 .initial) forkInSubscriber F ∧
      F.procs 9 = some s ∧ ¬ observerMonitor.Completes s 3 ∧
      ¬ (observerMonitor.kind.system.restrict Monitor.Careful).Run (Monitor.family 1 .initial)
        forkInSubscriber F := by
  obtain ⟨F, hrun, -, s, hp, hlive, hpc, hguard, hcaptive⟩ := forkInSubscriber_run
  obtain ⟨hcompletes, hall⟩ := observer_calls_complete_iff 1 forkInSubscriber F hrun
  have hlost : ¬ Monitor.Releasable s := by
    rintro (hfree | ⟨t, op, pc, hheld, ht⟩)
    · cases hfree.symm.trans hguard
    · cases hheld.symm.trans hguard
      cases hcaptive.symm.trans ht
  exact ⟨F, s, hrun, hp, fun h => hlost ((hcompletes 9 s 3 _ hp hlive hpc).mp h),
    fun h => hlost (hall.mpr h 9 s hp)⟩

end ProcessCpp.Core
