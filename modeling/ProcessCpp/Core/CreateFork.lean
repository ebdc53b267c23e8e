import ProcessCpp.Base.Family
import ProcessCpp.Core.CreateOnce

/-!
# The death observer in a tree of processes (child_process.cpp:151–185, fork.cpp:57–120)

`has_been_created_once` is a static of one process. `core::posix::fork` copies it, raised or
not, and with it the observer of the parent, if there is one. The other threads are not
copied: a call that has raised the flag and not yet returned goes on in the parent only, so
in the child the flag stays up and no observer will come of it.

- `CreateProc`, `createKind`: a process with its copy of the flag, of the traps and of the
  calls, some of which are frozen;
- `CreateProc.Stuck`: there are frozen calls;
- `observer_creatable_iff`: there is at most one observer on each line of descent; a process
  can come to one exactly when it is not stuck, and no process is stuck exactly when no fork
  was made during a call.
-/

namespace ProcessCpp.Core

open ProcessCpp.Base ProcessCpp.Posix

/-! ## The family -/

/-- Between the `exchange` that found the flag lowered and the end of the call. -/
def CreatePc.inProgress : CreatePc → Bool
  | .connect | .check | .unwind _ | .store _ => true
  | .threw _ | .returned _ | .destroyed => false

theorem CreatePc.holds_of_inProgress {pc : CreatePc} (h : pc.inProgress = true) : pc.Holds := by
  cases pc with
  | threw | returned | destroyed => cases h
  | _ => trivial

theorem CreatePc.not_succeeded_of_inProgress {pc : CreatePc} (h : pc.inProgress = true) :
    ¬ pc.Succeeded := by
  cases pc with
  | threw | returned | destroyed => cases h
  | _ => exact id

/-- A step of one call leaves only so many calls that have begun. -/
theorem begun_update {τ : Type} {calls : Nat → Option (CreateCall τ)}
    (h : ∃ n, ∀ i, n ≤ i → calls i = none) (i : Nat) (c : CreateCall τ) :
    ∃ n, ∀ j, n ≤ j → Function.update calls i (some c) j = none := by
  obtain ⟨n, hn⟩ := h
  refine ⟨max n (i + 1), fun j hj => ?_⟩
  have hne : j ≠ i := by omega
  rw [Function.update_of_ne hne]
  exact hn j (by omega)

/-- A process: the static, the traps and the calls, and which of these were calls of threads
that were left behind. -/
structure CreateProc (τ ζ : Type) where
  creation : Creation τ ζ
  frozen : Nat → Bool

namespace CreateProc

variable {τ ζ : Type}

def start (signalRaised : τ → ζ) : CreateProc τ ζ := ⟨.start signalRaised, fun _ => false⟩

/-- The call has begun and has not ended. -/
def calling (m : CreateProc τ ζ) (i : Nat) : Bool :=
  match m.creation.calls i with
  | some c => c.pc.inProgress
  | none => false

/-- The copy of a new process. The thread that forks is not inside a call, since a call runs
no code of its caller. -/
def forked (m : CreateProc τ ζ) : CreateProc τ ζ :=
  ⟨m.creation, fun i => m.frozen i || m.calling i⟩

/-- A call was cut short in this process or in one that it descends from. -/
def Stuck (m : CreateProc τ ζ) : Prop := ∃ i, m.frozen i = true

end CreateProc

section Family

variable {τ ζ : Type} [DecidableEq τ] (traps : τ → SignalTrap) (core : SignalSlots ζ)

/-- A process; frozen calls take no steps. -/
def createProcSystem : LTS (CreateProc τ ζ) (CreateLabel τ) where
  step m l m' := CreateStep traps core m.creation l m'.creation ∧ m'.frozen = m.frozen ∧
    ∀ i, l.call = some i → m.frozen i = false

def createKind : ProcessKind Unit (CreateProc τ ζ) (CreateLabel τ) Unit where
  step _ m l _ m' := (createProcSystem traps core).step m l m'
  fork m _ m' := m' = m.forked

/-- The process can come to an observer, or has one already. -/
def CreateProc.Creatable (m : CreateProc τ ζ) : Prop :=
  ∃ ls m' i, (createProcSystem traps core).Run m ls m' ∧ m'.creation.Succeeded i

/-! ## What holds of every process -/

/-- One call at most has raised the flag; frozen calls are where they were cut short. -/
structure CreateProc.Ok (m : CreateProc τ ζ) : Prop where
  held : ∃ holder, HeldBy m.creation holder
  frozen : ∀ i, m.frozen i = true → ∃ c, m.creation.calls i = some c ∧ c.pc.inProgress = true
  /-- only so many calls have begun -/
  begun : ∃ n, ∀ i, n ≤ i → m.creation.calls i = none

variable {traps core} {m m' : CreateProc τ ζ} {l : CreateLabel τ} {i : Nat}

namespace CreateProc

omit [DecidableEq τ] in
theorem calling_eq_true_iff :
    m.calling i = true ↔ ∃ c, m.creation.calls i = some c ∧ c.pc.inProgress = true := by
  unfold calling
  cases h : m.creation.calls i with
  | none => simp
  | some c => simp

omit [DecidableEq τ] in
theorem Ok.start (signalRaised : τ → ζ) : (start signalRaised).Ok := by
  refine ⟨⟨none, rfl, fun i => ?_⟩, nofun, 0, fun _ _ => rfl⟩
  simp [Creation.Holding, CreateProc.start, Creation.start]

theorem Ok.step (h : m.Ok) (hstep : (createProcSystem traps core).step m l m') : m'.Ok := by
  obtain ⟨hcreate, hfrozen, hmoves⟩ := hstep
  refine ⟨?_, fun i hi => ?_, ?_⟩
  · obtain ⟨holder, hholder⟩ := h.held
    exact hcreate.heldBy hholder
  · rw [hfrozen] at hi
    have hother : l.call ≠ some i := by
      intro hl
      cases hi.symm.trans (hmoves i hl)
    rw [hcreate.calls_of_ne hother]
    exact h.frozen i hi
  · rcases hcreate.call_cases with ⟨i, c, d, flag, -, -, hcalls, -, -⟩ | ⟨hcalls, -⟩
    · rw [hcalls]
      exact begun_update h.begun i d
    · rw [hcalls]
      exact h.begun

omit [DecidableEq τ] in
theorem Ok.forked (h : m.Ok) : m.forked.Ok := by
  refine ⟨h.held, fun i hi => ?_, h.begun⟩
  rcases Bool.or_eq_true_iff.mp hi with hold | hcut
  · exact h.frozen i hold
  · exact calling_eq_true_iff.mp hcut

omit [DecidableEq τ] in
/-- No two calls on the line of descent of a process have come to an observer. -/
theorem Ok.succeeded_unique (h : m.Ok) {j : Nat} (hi : m.creation.Succeeded i)
    (hj : m.creation.Succeeded j) : i = j := by
  obtain ⟨holder, -, hholds⟩ := h.held
  obtain ⟨c, hc, hdone⟩ := hi
  obtain ⟨d, hd, hdone'⟩ := hj
  have hi' := (hholds i).mp ⟨c, hc, hdone.holds⟩
  rw [(hholds j).mp ⟨d, hd, hdone'.holds⟩] at hi'
  exact (Option.some.inj hi').symm

omit [DecidableEq τ] in
/-- In a stuck process the flag is up for the sake of a frozen call. -/
theorem Ok.of_stuck (h : m.Ok) (hs : m.Stuck) :
    m.creation.hasBeenCreatedOnce = true ∧ ∀ j, ¬ m.creation.Succeeded j := by
  obtain ⟨i, hi⟩ := hs
  obtain ⟨c, hc, hcut⟩ := h.frozen i hi
  obtain ⟨holder, hheld⟩ := h.held
  have hholding : m.creation.Holding i := ⟨c, hc, CreatePc.holds_of_inProgress hcut⟩
  refine ⟨hheld.flag hholding, fun j hj => ?_⟩
  obtain ⟨d, hd, hdone⟩ := hj
  have hij := ((hheld.2 i).mp hholding).symm.trans ((hheld.2 j).mp ⟨d, hd, hdone.holds⟩)
  cases hij
  cases hc.symm.trans hd
  exact CreatePc.not_succeeded_of_inProgress hcut hdone

/-! ## Calls that can come to an observer -/

theorem step_of_create {s' : Creation τ ζ} (hstep : CreateStep traps core m.creation l s')
    (hfree : ∀ i, l.call = some i → m.frozen i = false) :
    (createProcSystem traps core).step m l ⟨s', m.frozen⟩ :=
  ⟨hstep, rfl, hfree⟩

theorem Creatable.of_step (hstep : (createProcSystem traps core).step m l m')
    (h : m'.Creatable traps core) : m.Creatable traps core := by
  obtain ⟨ls, m'', i, hrun, hdone⟩ := h
  exact ⟨l :: ls, m'', i, .cons hstep hrun, hdone⟩

/-- The same for a step of the call `i`. -/
theorem Creatable.of_call {s' : Creation τ ζ} (hstep : CreateStep traps core m.creation l s')
    (hfree : ∀ i, m.frozen i = false) (h : Creatable traps core ⟨s', m.frozen⟩) :
    m.Creatable traps core :=
  .of_step (step_of_create hstep fun i _ => hfree i) h

section Free

variable (hfree : ∀ i, m.frozen i = false) (hbegun : ∃ n, ∀ i, n ≤ i → m.creation.calls i = none)
  {good : τ} (hgood : (traps good).has Signal.sigChld = true)

include hfree hbegun hgood

/-- With the flag lowered, a new call with a trap for `SIGCHLD` comes to an observer. -/
theorem creatable_of_low (hflag : m.creation.hasBeenCreatedOnce = false) :
    m.Creatable traps core := by
  obtain ⟨n, hn⟩ := hbegun
  refine .of_call (.won (i := n) (t := good) (hn n (Nat.le_refl n)) hflag) hfree ?_
  refine .of_call (.connect (i := n) (t := good) (Function.update_self ..)) hfree ?_
  refine .of_call (.constructed (i := n) (t := good) (o := .initial) (Function.update_self ..)
    (ctor_of_has hgood)) hfree ?_
  exact ⟨[], _, n, .nil _, _, Function.update_self .., trivial⟩

/-- The handler lowers the flag. -/
theorem creatable_of_store {t : τ} {e : Exception} (hpc : m.creation.calls i = some ⟨t, .store e⟩) :
    m.Creatable traps core :=
  .of_call (.store hpc) hfree (creatable_of_low hfree (begun_update hbegun i _) hgood rfl)

theorem creatable_of_unwind {t : τ} {e : Exception}
    (hpc : m.creation.calls i = some ⟨t, .unwind e⟩) : m.Creatable traps core :=
  .of_call (.disconnect hpc) hfree
    (creatable_of_store hfree (begun_update hbegun i _) hgood (Function.update_self ..))

theorem creatable_of_check {t : τ} (hpc : m.creation.calls i = some ⟨t, .check⟩) :
    m.Creatable traps core := by
  cases hctor : Observer.ctor (traps t) with
  | ok o =>
    refine .of_call (.constructed hpc hctor) hfree ?_
    exact ⟨[], _, i, .nil _, _, Function.update_self .., trivial⟩
  | error e =>
    exact .of_call (.threw hpc hctor) hfree
      (creatable_of_unwind hfree (begun_update hbegun i _) hgood (Function.update_self ..))

theorem creatable_of_connect {t : τ} (hpc : m.creation.calls i = some ⟨t, .connect⟩) :
    m.Creatable traps core :=
  .of_call (.connect hpc) hfree
    (creatable_of_check hfree (begun_update hbegun i _) hgood (Function.update_self ..))

end Free

/-- A process can come to an observer exactly when it is not stuck. -/
theorem Ok.creatable_iff (h : m.Ok) {good : τ} (hgood : (traps good).has Signal.sigChld = true) :
    m.Creatable traps core ↔ ¬ m.Stuck := by
  constructor
  · rintro ⟨ls, m', j, hrun, hdone⟩ hs
    obtain ⟨hok, hstuck⟩ : m'.Ok ∧ m'.Stuck := by
      refine hrun.invariant (P := fun x => x.Ok ∧ x.Stuck) ?_ ⟨h, hs⟩
      rintro x a y hxy ⟨hx, i, hi⟩
      exact ⟨hx.step hxy, i, by rw [hxy.2.1]; exact hi⟩
    exact (hok.of_stuck hstuck).2 j hdone
  · intro hs
    have hfree : ∀ i, m.frozen i = false := fun i => eq_false_of_ne_true fun hi => hs ⟨i, hi⟩
    obtain ⟨holder, hflag, hholds⟩ := h.held
    cases holder with
    | none => exact creatable_of_low hfree h.begun hgood hflag
    | some i =>
      -- whoever has raised the flag brings its call to an end first
      obtain ⟨⟨t, pc⟩, hc, hpc⟩ := (hholds i).mpr rfl
      cases pc with
      | connect => exact creatable_of_connect hfree h.begun hgood hc
      | check => exact creatable_of_check hfree h.begun hgood hc
      | unwind e => exact creatable_of_unwind hfree h.begun hgood hc
      | store e => exact creatable_of_store hfree h.begun hgood hc
      | threw e => exact hpc.elim
      | returned o | destroyed => exact ⟨[], m, i, .nil m, _, hc, trivial⟩

omit [DecidableEq τ] in
/-- A copy is stuck exactly when the fork was made during a call. -/
theorem stuck_forked_iff (hs : ¬ m.Stuck) : m.forked.Stuck ↔ ∃ i, m.calling i = true := by
  constructor
  · rintro ⟨i, hi⟩
    rcases Bool.or_eq_true_iff.mp hi with hold | hcut
    · exact absurd ⟨i, hold⟩ hs
    · exact ⟨i, hcut⟩
  · rintro ⟨i, hi⟩
    exact ⟨i, Bool.or_eq_true_iff.mpr (.inr hi)⟩

/-- Every call that has begun since `calls` was looked at has been refused. -/
def Refuses (calls : Nat → Option (CreateCall τ)) (m : CreateProc τ ζ) : Prop :=
  ∀ i c, calls i = none → m.creation.calls i = some c → c.pc = .threw cannotCreateMore

theorem Refuses.step {calls : Nat → Option (CreateCall τ)} (h : m.Refuses calls) (hok : m.Ok)
    (hs : m.Stuck) (hstep : (createProcSystem traps core).step m l m') : m'.Refuses calls := by
  intro i c hnew hc
  cases hold : m.creation.calls i with
  | none => exact hstep.1.refused (hok.of_stuck hs).1 hold hc
  | some b =>
    have hb := h i b hnew hold
    cases b
    cases hb
    rw [hstep.1.threw_stays hold] at hc
    cases hc
    rfl

end CreateProc

end Family

/-! ## The whole family -/

section Whole

variable {τ ζ : Type} [DecidableEq τ] (traps : τ → SignalTrap) (core : SignalSlots ζ)

/-- No fork is made during a call of `create_once_with_signal_trap`. -/
def CreateProc.Careful : ProcessKind.Family Unit (CreateProc τ ζ) →
    ProcessKind.Label (CreateLabel τ) Unit → Prop :=
  ProcessKind.Careful (fun _ _ => False) fun m _ => ∃ i, m.calling i = true

/-- **Which processes can have a death observer**: in every tree of processes in which any
number of threads call `create_once_with_signal_trap`, at most one call on the line of
descent of a process has ever come to an observer, and a process has come to one, which may
be gone again, or can still come to one if and only if it is not stuck. No process is stuck if
and only if no fork was made during a call. A stuck process refuses every call from then on,
and its children are stuck with it. -/
theorem observer_creatable_iff (good : τ) (hgood : (traps good).has Signal.sigChld = true)
    (root : Nat) (signalRaised : τ → ζ) (ls : List (ProcessKind.Label (CreateLabel τ) Unit))
    (F : ProcessKind.Family Unit (CreateProc τ ζ))
    (h : (createKind traps core).system.Run (.start () root (.start signalRaised)) ls F) :
    (∀ p m, F.procs p = some m →
        (∀ i j, m.creation.Succeeded i → m.creation.Succeeded j → i = j) ∧
          (m.Creatable traps core ↔ ¬ m.Stuck)) ∧
      (F.Forall (fun m => ¬ m.Stuck) ↔ ((createKind traps core).system.restrict
        CreateProc.Careful).Run (.start () root (.start signalRaised)) ls F) ∧
      ∀ p m, F.procs p = some m → m.Stuck →
        ∀ ls' F', (createKind traps core).system.Run F ls' F' →
          (∃ m', F'.procs p = some m' ∧ m'.Stuck ∧ m'.Refuses m.creation.calls) ∧
            ∀ child who, .fork p child who ∈ ls' → ∃ m', F'.procs child = some m' ∧ m'.Stuck := by
  have hstep : ∀ g (m : CreateProc τ ζ) l g' m', (createKind traps core).step g m l g' m' →
      m.Ok → m'.Ok := fun _ _ _ _ _ hxy hx => hx.step hxy
  have hfork : ∀ (m : CreateProc τ ζ) who m', (createKind traps core).fork m who m' →
      m.Ok → m'.Ok := by
    rintro m who _ rfl hx
    exact hx.forked
  have hstart : (ProcessKind.Family.start () root (CreateProc.start signalRaised)).Forall
      CreateProc.Ok :=
    ProcessKind.Family.forall_start (CreateProc.Ok.start signalRaised)
  have hall := ProcessKind.forall_procs hstep hfork h hstart
  refine ⟨fun p m hp => ⟨fun i j hi hj => (hall p m hp).succeeded_unique hi hj,
    (hall p m hp).creatable_iff hgood⟩, ?_, fun p m hp hs ls' F' h' => ?_⟩
  · refine ProcessKind.noneSpoiled_iff (K := createKind traps core) (I := CreateProc.Ok)
      hstep hfork ?_ ?_ h hstart (ProcessKind.Family.forall_start ?_)
    · rintro g m l g' m' ⟨-, hfrozen, -⟩ -
      unfold CreateProc.Stuck
      rw [hfrozen]
      exact (or_iff_left id).symm
    · rintro m who _ rfl - hs
      exact CreateProc.stuck_forked_iff hs
    · rintro ⟨i, hi⟩
      cases hi
  · have hrefuses : m.Refuses m.creation.calls := by
      intro i c hnew hc
      cases hnew.symm.trans hc
    have hkept : ∀ g (x : CreateProc τ ζ) l g' y, (createKind traps core).step g x l g' y →
        x.Ok ∧ x.Stuck ∧ x.Refuses m.creation.calls →
        y.Ok ∧ y.Stuck ∧ y.Refuses m.creation.calls := by
      rintro g x l g' y hxy ⟨hx, ⟨i, hi⟩, hxref⟩
      refine ⟨hx.step hxy, ⟨i, ?_⟩, hxref.step hx ⟨i, hi⟩ hxy⟩
      rw [hxy.2.1]
      exact hi
    have hpassed : ∀ (x : CreateProc τ ζ) who y, (createKind traps core).fork x who y →
        x.Ok ∧ x.Stuck ∧ x.Refuses m.creation.calls →
        y.Ok ∧ y.Stuck ∧ y.Refuses m.creation.calls := by
      rintro x who _ rfl ⟨hx, ⟨i, hi⟩, hxref⟩
      exact ⟨hx.forked, ⟨i, Bool.or_eq_true_iff.mpr (.inl hi)⟩, hxref⟩
    obtain ⟨⟨m', hm', -, hs', href⟩, -, hchildren⟩ := ProcessKind.stays hkept hpassed
      (fun _ _ _ _ _ _ _ => not_false) h' ⟨m, hp, hall p m hp, hs, hrefuses⟩
    refine ⟨⟨m', hm', hs', href⟩, fun child who hmem => ?_⟩
    obtain ⟨n, hn, -, hsn, -⟩ := hchildren child who hmem
    exact ⟨n, hn, hsn⟩

end Whole

/-- A thread raises the flag, another one forks, and the child tries to create an observer of
its own while the parent gets it. -/
def forkDuringCreation : List (ProcessKind.Label (CreateLabel Unit) Unit) :=
  [.proc 1 (.exchange 0 ()), .fork 1 2 (), .proc 1 (.connect 0 ()), .proc 1 (.check 0),
    .proc 2 (.exchange 1 ())]

theorem forkDuringCreation_run :
    ∃ F, (createKind (fun _ => chldTrap) SignalSlots.finset).system.Run
        (.start () 1 (.start fun _ => ∅)) forkDuringCreation F ∧
      (∃ m, F.procs 1 = some m ∧ m.creation.Succeeded 0) ∧
      ∃ m, F.procs 2 = some m ∧ m.Stuck := by
  open ProcessKind CreateProc in
  refine ⟨_, .cons (Step.alone rfl (step_of_create (.won rfl rfl) fun _ _ => rfl)) <|
    .cons (.fork rfl rfl rfl) <|
    .cons (Step.alone rfl (step_of_create (.connect rfl) fun _ _ => rfl)) <|
    .cons (Step.alone rfl (step_of_create (.constructed rfl (if_pos (by decide)))
      fun _ _ => rfl)) <|
    .cons (Step.alone rfl (step_of_create (.lost rfl rfl) ?_)) (.nil _),
    ⟨_, rfl, _, rfl, trivial⟩, _, rfl, 0, rfl⟩
  rintro _ ⟨⟩
  rfl

theorem observer_creatable_iff_forkDuringCreation :
    ∃ F, (createKind (fun _ => chldTrap) SignalSlots.finset).system.Run
        (.start () 1 (.start fun _ => ∅)) forkDuringCreation F ∧
      (∃ m, F.procs 1 = some m ∧ m.creation.Succeeded 0) ∧
      (∃ m, F.procs 2 = some m ∧ ¬ m.Creatable (fun _ => chldTrap) SignalSlots.finset) ∧
      ¬ ((createKind (fun _ => chldTrap) SignalSlots.finset).system.restrict
        CreateProc.Careful).Run (.start () 1 (.start fun _ => ∅)) forkDuringCreation F := by
  obtain ⟨F, hrun, hparent, m, hm, hs⟩ := forkDuringCreation_run
  obtain ⟨heach, hnone, -⟩ := observer_creatable_iff (fun _ => chldTrap) SignalSlots.finset ()
    (by decide) 1 (fun _ => ∅) forkDuringCreation F hrun
  exact ⟨F, hrun, hparent, ⟨m, hm, fun h => (heach 2 m hm).2.mp h hs⟩,
    fun h => hnone.mpr h 2 m hm hs⟩

end ProcessCpp.Core
