import ProcessCpp.Base.Family
import ProcessCpp.Core.RunOnce

/-!
# A trap in a tree of processes (signal.cpp:101–185, fork.cpp:57–120)

`core::posix::fork` gives the child a copy of the trap: of its member `state`, as it is at
that moment, and of the descriptor of its eventfd, which goes on to stand for the same
counter. It does not copy the threads, so a session that is going on in the parent has no
counterpart in the child; but the child's `state` says `running`, and nobody is left to put
it back.

- `trapKind`: a process with its copy of one trap; the eventfd is common to all processes;
- `Callers.Stranded`: `state` says `running` and no thread of the process is in a session;
- `no_copy_stranded_iff`: it takes a fork during a session, or an exception that leaves the
  last session of a process; and such a copy refuses every call of `run` ever after, and so
  do the copies made of it.
-/

namespace ProcessCpp.Core

open ProcessCpp.Base ProcessCpp.Posix

/-! ## The family -/

/-- The eventfd, to which every process refers that was not replaced by another program. -/
structure SharedEvent where
  eventCount : Nat
  stops : Nat
  stopped : List StoppedSession

/-- The trap as a process sees it: its own memory, and the common eventfd. -/
def Callers.view (c : Callers) (g : SharedEvent) : Callers :=
  { c with shared :=
      { c.shared with eventCount := g.eventCount, stops := g.stops, stopped := g.stopped } }

/-- The copy of a new process: signals that are pending are not inherited, and no thread is
inside `run`, not even the one that forked: it ends in `::exit`. -/
def Callers.forkedCopy (c : Callers) : Callers where
  shared :=
    { c.shared with pending := 0, queued := 0, removed := [], raised := [], ends := [] }
  calls := fun _ => none

/-- A process with a copy of the trap, any of whose threads may fork, also from inside a
subscriber. -/
def trapKind (trap : SignalTrap) : ProcessKind SharedEvent Callers CallersLabel Unit where
  step g c l g' c' := CallersStep trap (c.view g) l c' ∧
    g' = ⟨c'.shared.eventCount, c'.shared.stops, c'.shared.stopped⟩
  fork c _ c' := c' = c.forkedCopy

abbrev TrapFamily : Type := ProcessKind.Family SharedEvent Callers

/-- The process that has constructed the trap. -/
def TrapFamily.start (root : Nat) : TrapFamily := ProcessKind.Family.start ⟨0, 0, []⟩ root .start

/-! ## Stranded copies -/

/-- `state` says `running`, and no thread is on its way to putting it back. -/
def Callers.Stranded (c : Callers) : Prop :=
  c.shared.state = .running ∧ ∀ i pc, c.calls i = some pc → ¬ pc.PastCheck

/-- The step is an exception that leaves `run`, while `state` says `running` and no other
thread is inside. -/
def Callers.Strands (c : Callers) (l : CallersLabel) : Prop :=
  ∃ i e, l = .call i (.ends e) ∧ (e = .subscriberThrew ∨ ∃ n, e = .systemError n) ∧
    c.shared.state = .running ∧ ∀ j pc, j ≠ i → c.calls j = some pc → ¬ pc.PastCheck

section

variable {trap : SignalTrap} {c c' : Callers} {l : CallersLabel}

/-- Every call of `run` on a stranded copy is refused, and the copy stays as it is. -/
theorem Callers.Stranded.step (hs : c.Stranded) (h : CallersStep trap c l c') :
    c'.Stranded ∧ ∀ i, l ≠ .call i .load := by
  obtain ⟨hstate, hnone⟩ := hs
  cases h with
  | outside h =>
    refine ⟨⟨?_, hnone⟩, nofun⟩
    rw [h.frame.1]
    exact hstate
  | @run i hidle =>
    refine ⟨⟨hstate, forall_update (fun j pc _ hj => hnone j pc hj) ?_⟩, nofun⟩
    rintro _ ⟨⟩
    exact id
  | @call i pc cl shared call hpc h =>
    have hpast := hnone i pc hpc
    have hkept : shared.state = .running := (h.state_eq hpast).trans hstate
    refine ⟨⟨hkept, forall_update (fun j pc _ hj => hnone j pc hj) ?_⟩, ?_⟩
    · intro pc' hpc' hpast'
      rcases h.pastCheck hpc' hpast' with hold | ⟨-, hidle⟩
      · exact hpast hold
      · cases hidle.symm.trans hstate
    · rintro j ⟨⟩
      cases h with
      | admitted hadm => exact hadm hstate

/-- A copy is stranded by an exception that leaves its last session. -/
theorem Callers.Strands.stranded (hl : c.Strands l) (h : CallersStep trap c l c') :
    c'.Stranded := by
  obtain ⟨i, e, rfl, he, hstate, hnone⟩ := hl
  cases h with
  | @call _ pc _ shared call hpc h =>
    have hkept : shared.state = .running ∧ call = none := by
      rcases he with rfl | ⟨n, rfl⟩
      · cases h with
        | throws => exact ⟨hstate, rfl⟩
      · cases h with
        | openFailed => exact ⟨hstate, rfl⟩
    obtain ⟨hrunning, rfl⟩ := hkept
    refine ⟨hrunning, forall_update (fun j pc' hji hj => hnone j pc' hji hj) ?_⟩
    rintro _ ⟨⟩

/-- The other threads are outside of a session in a copy that is stranded after a step. -/
theorem Callers.Stranded.others {i : Nat} {call : Option CallPc} {shared : TrapShared}
    (hs : Callers.Stranded ⟨shared, Function.update c.calls i call⟩) :
    ∀ j pc, j ≠ i → c.calls j = some pc → ¬ pc.PastCheck := by
  intro j pc hji hj
  exact hs.2 j pc ((Function.update_of_ne hji ..).trans hj)

/-- A step of a thread that is outside of a session strands nothing. -/
theorem Callers.Stranded.of_outside {i : Nat} {pc : CallPc} {call : Option CallPc}
    {shared : TrapShared} (hs : Callers.Stranded ⟨shared, Function.update c.calls i call⟩)
    (hi : c.calls i = some pc) (hpast : ¬ pc.PastCheck) (hstate : shared.state = c.shared.state) :
    c.Stranded := by
  refine ⟨hstate.symm.trans hs.1, fun j pc' hj => ?_⟩
  by_cases hji : j = i
  · subst hji
    cases hi.symm.trans hj
    exact hpast
  · exact hs.others j pc' hji hj

/-- A copy in which a thread is in a session is not stranded. -/
theorem Callers.not_stranded_of_inside {i : Nat} {pc : CallPc} {shared : TrapShared}
    (hpast : pc.PastCheck) : ¬ Callers.Stranded ⟨shared, Function.update c.calls i (some pc)⟩ :=
  fun hs => hs.2 i pc (Function.update_self ..) hpast

/-- A copy is stranded after a step exactly when it was before or the step strands it. -/
theorem Callers.stranded_step_iff (h : CallersStep trap c l c') :
    c'.Stranded ↔ c.Stranded ∨ c.Strands l := by
  constructor
  · intro hs
    cases h with
    | outside h =>
      refine .inl ⟨?_, hs.2⟩
      rw [← h.frame.1]
      exact hs.1
    | @run i hidle =>
      refine .inl ⟨hs.1, fun j pc hj => ?_⟩
      have hne : j ≠ i := by
        rintro rfl
        cases hidle.symm.trans hj
      exact hs.others j pc hne hj
    | @call i pc cl shared call hpc h =>
      cases h with
      | admitted | store | opened | loop | readEvent =>
        exact absurd hs (Callers.not_stranded_of_inside trivial)
      | refused | close => exact .inl (hs.of_outside hpc id rfl)
      | leave =>
        have hrunning : SignalTrap.State.notRunning = .running := hs.1
        cases hrunning
      | openFailed => exact .inr ⟨i, _, rfl, .inr ⟨_, rfl⟩, hs.1, hs.others⟩
      | throws => exact .inr ⟨i, _, rfl, .inl rfl, hs.1, hs.others⟩
  · rintro (hs | hl)
    · exact (hs.step h).1
    · exact hl.stranded h

theorem Callers.stranded_forkedCopy_iff :
    c.forkedCopy.Stranded ↔ c.shared.state = .running :=
  ⟨fun hs => hs.1, fun hrunning => ⟨hrunning, nofun⟩⟩

end

/-! ## The whole family -/

/-- No fork is made while `state` says `running`, and no exception leaves the last session
of a process while it does. -/
def TrapFamily.Careful : TrapFamily → ProcessKind.Label CallersLabel Unit → Prop :=
  ProcessKind.Careful Callers.Strands fun c _ => c.shared.state = .running

/-- **How a trap is lost in a family of processes**: no copy is stranded if and only if no
fork finds `state` at `running`, as it is during a session, and no exception leaves the last
session of a process while `state` says `running`; and a stranded copy, with the copies made
of it, refuses every call from then on. -/
theorem no_copy_stranded_iff (trap : SignalTrap) (root : Nat)
    (ls : List (ProcessKind.Label CallersLabel Unit)) (F : TrapFamily)
    (h : (trapKind trap).system.Run (TrapFamily.start root) ls F) :
    (F.Forall (fun c => ¬ c.Stranded) ↔
      ((trapKind trap).system.restrict TrapFamily.Careful).Run (TrapFamily.start root) ls F) ∧
      ∀ p c, F.procs p = some c → c.Stranded → ∀ ls' F', (trapKind trap).system.Run F ls' F' →
        (∃ c', F'.procs p = some c' ∧ c'.Stranded) ∧
          (∀ l, .proc p l ∈ ls' → ¬ ∃ i, l = .call i .load) ∧
          ∀ child who, .fork p child who ∈ ls' → ∃ c', F'.procs child = some c' ∧ c'.Stranded := by
  constructor
  · refine ProcessKind.noneSpoiled_iff (K := trapKind trap) (I := fun _ => True)
      (fun _ _ _ _ _ _ _ => trivial) (fun _ _ _ _ _ => trivial) ?_ ?_ h
      (ProcessKind.Family.forall_start trivial) (ProcessKind.Family.forall_start ?_)
    · rintro g c l g' c' ⟨hstep, -⟩ -
      exact Callers.stranded_step_iff (c := c.view g) hstep
    · rintro c who _ rfl - -
      exact Callers.stranded_forkedCopy_iff
    · rintro ⟨hrunning, -⟩
      cases hrunning
  · intro p c hp hs ls' F' h'
    refine ProcessKind.stays (K := trapKind trap) ?_ ?_ ?_ h' ⟨c, hp, hs⟩
    · rintro g c l g' c' ⟨hstep, -⟩ hs
      exact (Callers.Stranded.step (c := c.view g) hs hstep).1
    · rintro c who _ rfl hs
      exact Callers.stranded_forkedCopy_iff.mpr hs.1
    · rintro g c l g' c' ⟨hstep, -⟩ hs ⟨i, rfl⟩
      exact (Callers.Stranded.step (c := c.view g) hs hstep).2 i rfl

/-- A session begins, its process forks, and the child calls `stop`, on the eventfd both
share. -/
def forkDuringSession : List (ProcessKind.Label CallersLabel Unit) :=
  [.proc 1 (.run 0), .proc 1 (.call 0 .load), .proc 1 (.call 0 .store), .fork 1 2 (),
    .proc 2 (.outside .stop)]

theorem forkDuringSession_run :
    ∃ F, (trapKind chldTrap).system.Run (TrapFamily.start 1) forkDuringSession F ∧
      (∃ c, F.procs 2 = some c ∧ c.Stranded) ∧ F.common.eventCount = 1 := by
  refine ⟨_, .cons (.proc rfl ⟨.run rfl, rfl⟩) <|
    .cons (.proc rfl ⟨.call rfl (.admitted (by decide)), rfl⟩) <|
    .cons (.proc rfl ⟨.call rfl .store, rfl⟩) <| .cons (.fork rfl rfl rfl) <|
    .cons (.proc rfl ⟨.outside (.stop rfl), rfl⟩) (.nil _), ⟨_, rfl, rfl, nofun⟩, rfl⟩

theorem no_copy_stranded_iff_forkDuringSession :
    ∃ F, (trapKind chldTrap).system.Run (TrapFamily.start 1) forkDuringSession F ∧
      (∃ c, F.procs 2 = some c ∧ c.Stranded) ∧
      ¬ ((trapKind chldTrap).system.restrict TrapFamily.Careful).Run (TrapFamily.start 1)
        forkDuringSession F := by
  obtain ⟨F, hrun, ⟨c, hc, hs⟩, -⟩ := forkDuringSession_run
  obtain ⟨hiff, -⟩ := no_copy_stranded_iff chldTrap 1 forkDuringSession F hrun
  exact ⟨F, hrun, ⟨c, hc, hs⟩, fun hcare => hiff.mpr hcare 2 c hc hs⟩

end ProcessCpp.Core
