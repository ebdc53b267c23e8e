import ProcessCpp.Core.DeathObserver
import ProcessCpp.Core.SignalTrapRun

/-!
# No death is missed

One parent with one trap for `SIGCHLD` and one observer on it: the trap thread runs
`SignalTrap::run` (`Core/SignalTrapRun.lean`) and, inside an emission of
`signal_raised`, `on_sig_child`; any number of other threads call `add`.

A child in the map can be dead without anybody having been told yet. The point is that
then somebody is still on the way to it (`no_missed_death`):

- a zombie in the map has its `SIGCHLD` pending, or the trap thread has dequeued it and
  is still going to call `waitpid`, or the `add` that inserted it is (`ZombieCovered`);
- a child in the map that has been reaped is in the hands of the thread that reaped it
  (`ReapedCovered`): `on_sig_child` with the pid in hand, or the `add` that inserted it.

What makes this go through is that a pid belongs to one child only (`Alone`), that
`waitpid(0)` overlooks no child (all are in the parent's group), and that nobody else
waits: `Undisturbed`.
-/

namespace ProcessCpp.Core

open ProcessCpp.Base ProcessCpp.Posix

/-! ## The trap thread and the observer together -/

/-- The threads around the observer, and where the trap thread stands in `run`. -/
structure Parent where
  threads : ObserverState
  trap : RunState

/-- The trap thread, as a caller of `on_sig_child`. -/
def trapThread : Nat := 0

/-- `ssi_signo` of a record for `SIGCHLD`. -/
def sigchldNo : Nat := 17

/-- What the kernel answers to the trap's system calls. The signalfd is readable while
`SIGCHLD` is pending (and may be for other signals), and reading its record takes it. -/
inductive TrapAnswer (k : Kernel) : RunLabel → Kernel → Prop where
  | ready {signal event} (hpoll : k.sigchld = true → signal = true) :
      TrapAnswer k (.poll (.ready signal event)) k
  | timeout : TrapAnswer k (.poll .timeout) k
  | pollError {e} : TrapAnswer k (.poll (.error e)) k
  | dequeued {signos fits} (hmem : sigchldNo ∈ signos) (hpending : k.sigchld = true) :
      TrapAnswer k (.read (.records signos fits)) { k with sigchld := false }
  | others {signos fits} (hmem : sigchldNo ∉ signos) : TrapAnswer k (.read (.records signos fits)) k
  | readError {e} : TrapAnswer k (.read (.failed e)) k
  | tau : TrapAnswer k .tau k

/-- The observer's connection to `signal_raised`: `on_sig_child` for `SIGCHLD`, and
nothing for any other signal. -/
def onSignalRaised (signals : List Signal) : Option OscPc :=
  if Signal.sigChld ∈ signals then some .wait else none

/-- A step of the trap thread in `run`, up to the emission of what it raised. -/
def Parent.moveTrap (p : Parent) (k' : Kernel) (t' : RunState) : Parent where
  threads :=
    p.threads.moveHandling trapThread k' p.threads.observer
      (onSignalRaised (newlyRaised p.trap t'))
  trap := t'

inductive ParentLabel where
  | threads (l : ObserverLabel)
  | trap (l : RunLabel)

/-- A step of the kernel, of a caller of `add` or inside `on_sig_child`, or of the loop
of `run`, which stands still while the trap thread is inside `on_sig_child`. -/
inductive ParentStep (trap : SignalTrap) (p : Parent) : ParentLabel → Parent → Prop where
  | threads {l s'} (h : ObserverStep p.threads l s') :
      ParentStep trap p (.threads l) { p with threads := s' }
  | trap {l k' t'} (hidle : p.threads.handling trapThread = none)
      (h : RunStep trap p.trap l t') (hk : TrapAnswer p.threads.kernel l k') :
      ParentStep trap p (.trap l) (p.moveTrap k' t')

def parentSystem (trap : SignalTrap) : LTS Parent ParentLabel where
  step := ParentStep trap

/-- The steps of a parent whose children stay in its group, whose pids are not recycled,
and where only `add` and the trap thread wait for children. -/
def Undisturbed (p : Parent) : ParentLabel → Prop
  | .threads (.kernel (.fork pid)) => pid ∉ p.threads.kernel.forks
  | .threads (.kernel (.regroup _ inGroup)) => inGroup = true
  | .threads (.callOnSigChild _) => False
  | .threads (.waitFor _ _ _) => False
  | _ => True

/-- The parent inside `run`, before its first fork. -/
def Parent.start (k : Kernel) (o : Observer) (info : Nat → Nat) : Parent :=
  ⟨.start k o, .start info⟩

/-! ## Who is on the way to a dead child -/

/-- The child an `add` has inserted and not erased yet, nor found alive. -/
def AddPc.window : AddPc → Option ChildProcess
  | .inserted c | .missed c | .emitted c => some c
  | _ => none

/-- The reaped pid `on_sig_child` has in hand until it has erased it. -/
def OscPc.holding : OscPc → Option Nat
  | .reaped pid _ | .locked pid _ | .found pid _ _ | .emitted pid _ => some pid
  | _ => none

/-- The reaped pid `on_sig_child` has in hand and has not emitted yet. -/
def OscPc.unannounced : OscPc → Option Nat
  | .reaped pid _ | .locked pid _ | .found pid _ _ => some pid
  | _ => none

namespace ObserverState

/-- An `add` of this child is between its insertion and its erasure. -/
def InsideAdd (s : ObserverState) (c : ChildProcess) : Prop :=
  ∃ i pc, s.adding i = some pc ∧ pc.window = some c

/-- The trap thread has this reaped pid in hand. -/
def Holds (s : ObserverState) (pid : Nat) : Prop :=
  ∃ pc, s.handling trapThread = some pc ∧ pc.holding = some pid

/-- The trap thread has this reaped pid in hand and has not emitted it yet. -/
def HoldsUnannounced (s : ObserverState) (pid : Nat) : Prop :=
  ∃ pc, s.handling trapThread = some pc ∧ pc.unannounced = some pid

end ObserverState

/-- A record for `SIGCHLD` has been read and not been looked at yet. -/
def RunState.Dequeued (t : RunState) : Prop :=
  ∃ signos fits info l event j, t.pc = .dispatch ⟨.records signos fits, info⟩ l event ∧
    l.i ≤ j ∧ signos[j]? = some sigchldNo

namespace Parent

/-- The trap thread has dequeued `SIGCHLD` and not yet made the `waitpid` that ends the
loop of `on_sig_child`. -/
def Draining (p : Parent) : Prop :=
  p.trap.Dequeued ∨ p.threads.handling trapThread ≠ none

/-- The trap thread is blocked in `poll`. -/
def Idle (p : Parent) : Prop :=
  p.trap.pc = .poll ∧ p.threads.handling trapThread = none

/-- Assumed by every result below, and kept by every undisturbed step: each pid belongs
to one child, all children are in the parent's group, and only the trap thread is inside
`on_sig_child`. -/
structure Alone (p : Parent) : Prop where
  nodup : p.threads.kernel.forks.Nodup
  grouped : ∀ pid c, p.threads.kernel.slots pid = .child c → c.inGroup = true
  single : ∀ i, i ≠ trapThread → p.threads.handling i = none

def ReapedCovered (p : Parent) : Prop :=
  ∀ pid serial, p.threads.observer.children pid = some (.forked pid serial) →
    serial ∈ p.threads.kernel.reaped →
      p.threads.Holds pid ∨ p.threads.InsideAdd (.forked pid serial)

def ZombieCovered (p : Parent) : Prop :=
  ∀ pid serial, p.threads.observer.children pid = some (.forked pid serial) →
    p.threads.kernel.Zombie pid serial →
      p.threads.kernel.sigchld = true ∨ p.Draining ∨ p.threads.InsideAdd (.forked pid serial)

/-- Whatever was inserted is still in the map or has been announced. -/
def Logged (p : Parent) : Prop :=
  ∀ pid serial, .forked pid serial ∈ p.threads.observer.inserted →
    p.threads.observer.children pid = some (.forked pid serial) ∨
      .forked pid serial ∈ p.threads.observer.died

end Parent

/-! ## One child for each pid -/

/-- Without reuse of pids, a value is determined by its pid. -/
theorem ChildProcess.Made.eq_forked {k : Kernel} {pid serial : Nat} {d : ChildProcess}
    (hwf : k.WF) (hnodup : k.forks.Nodup) (hc : (ChildProcess.forked pid serial).Made k)
    (hd : d.Made k) (hpid : d.pid = pid) : d = .forked pid serial := by
  cases d with
  | forked pid' serial' =>
    obtain rfl : pid' = pid := hpid
    obtain rfl := Kernel.serial_inj hnodup hc hd
    rfl
  | invalid n =>
    -- no fork is given the pid of init
    have hpos := hwf.pid_pos pid (List.mem_of_getElem? hc)
    have hinit : 1 = pid := hpid
    omega

theorem TrapAnswer.kernel_eq {k k' : Kernel} {l : RunLabel} (h : TrapAnswer k l k') :
    k' = { k with sigchld := k'.sigchld } := by
  cases h <;> rfl

namespace Parent

variable {trap : SignalTrap} {p p' : Parent} {l : ParentLabel}

theorem Alone.step (h : p.Alone) (hstep : ParentStep trap p l p') (hl : Undisturbed p l) :
    p'.Alone := by
  cases hstep with
  | trap hidle hrun hk =>
    rw [hk.kernel_eq]
    refine ⟨h.nodup, h.grouped, fun i hi => ?_⟩
    exact (Function.update_of_ne hi ..).trans (h.single i hi)
  | threads hthreads =>
    cases hthreads with
    | @kernel kl k' hk =>
      refine ⟨hk.nodup ?_ h.nodup, hk.grouped ?_ h.grouped, h.single⟩
      · rintro pid rfl
        exact hl
      · rintro pid inGroup rfl
        exact hl
    | callAdd => exact ⟨h.nodup, h.grouped, h.single⟩
    | add hpc hadd =>
      rcases hadd.kernel_cases with rfl | ⟨a, hw⟩
      · exact ⟨h.nodup, h.grouped, h.single⟩
      · exact ⟨hw.forks_eq ▸ h.nodup, fun pid c hc => h.grouped pid c (hw.slots_child hc),
          h.single⟩
    | callOnSigChild => exact hl.elim
    | @onSigChild i pc ol k' o' pc' hpc hosc =>
      have hi : ∀ j, j ≠ trapThread → Function.update p.threads.handling i pc' j = none := by
        intro j hj
        by_cases hji : j = i
        · subst hji
          rw [h.single j hj] at hpc
          cases hpc
        · exact (Function.update_of_ne hji ..).trans (h.single j hj)
      rcases hosc.kernel_cases with rfl | ⟨a, hw⟩
      · exact ⟨h.nodup, h.grouped, hi⟩
      · exact ⟨hw.forks_eq ▸ h.nodup, fun pid c hc => h.grouped pid c (hw.slots_child hc), hi⟩
    | waitFor => exact hl.elim

/-- Only the trap thread takes steps of `on_sig_child`. -/
theorem Alone.thread_eq (h : p.Alone) {i : Nat} {pc : OscPc}
    (hpc : p.threads.handling i = some pc) : i = trapThread := by
  by_cases hi : i = trapThread
  · exact hi
  · rw [h.single i hi] at hpc
    cases hpc

end Parent

/-! ## Dead children stay in somebody's hands -/

/-- An `add` keeps its child in hand until it has found it alive or erased it. -/
theorem AddStep.window_cases {me : Nat} {k k' : Kernel} {o o' : Observer} {pc : AddPc}
    {l : AddLabel} {pc' : Option AddPc} (h : AddStep me k o pc l k' o' pc') {c : ChildProcess}
    (hc : pc.window = some c) :
    (∃ b, pc' = some b ∧ b.window = some c) ∨
    (pc = .inserted c ∧ l = .wait .nothing ∧ Waitpid k (.process c.pid) .wnohang .nothing k') ∨
      o' = o.erase c.pid := by
  cases h with
  | alive hw =>
    cases hc
    exact .inr (.inl ⟨rfl, rfl, hw⟩)
  | gone hw => exact .inl ⟨_, rfl, hc⟩
  | emit => exact .inl ⟨_, rfl, hc⟩
  | erase =>
    cases hc
    exact .inr (.inr rfl)
  | invalidPid | lock | insert | present | unlock => cases hc

/-- `on_sig_child` keeps a reaped pid in hand until the map no longer has it. -/
theorem OscStep.holding_cases {me : Nat} {k k' : Kernel} {o o' : Observer} {pc : OscPc}
    {l : OscLabel} {pc' : Option OscPc} (h : OscStep me k o pc l k' o' pc') (hpc : pc.Sound k)
    {pid : Nat} (hpid : pc.holding = some pid) :
    (∃ b, pc' = some b ∧ b.holding = some pid) ∨ o'.children pid = none := by
  cases h with
  | lock | found | emit => exact .inl ⟨_, rfl, hpid⟩
  | notFound hfind =>
    cases hpid
    exact .inr hfind
  | skip hended =>
    -- a child that was reaped has ended, so its status passes one of the two tests
    obtain ⟨⟨t, rfl⟩, -⟩ := hpc
    exact absurd (t.wifsignaled_or_wifexited.symm.trans hended) (by decide)
  | erase =>
    cases hpid
    exact .inr (Function.update_self ..)
  | noMoreChildren | stray | reaped | unlock => cases hpid

/-- A child that an `add` reaps is one it has just inserted. -/
theorem AddStep.reaped_cases {me : Nat} {k k' : Kernel} {o o' : Observer} {pc : AddPc}
    {l : AddLabel} {pc' : Option AddPc} (h : AddStep me k o pc l k' o' pc') {serial : Nat}
    (hr : serial ∈ k'.reaped) :
    serial ∈ k.reaped ∨ ∃ c child, pc = .inserted c ∧ pc' = some (.missed c) ∧
      k.slots c.pid = .child child ∧ child.serial = serial := by
  cases h with
  | alive hw =>
    cases hw with
    | nothing => exact .inl hr
  | gone hw ha =>
    rcases hw.cases_kernel with rfl | ⟨pid, child, t, hslot, hsel, -, -, rfl⟩
    · exact .inl hr
    · obtain rfl : pid = _ := hsel
      rcases List.mem_cons.mp hr with rfl | hr
      · exact .inr ⟨_, child, rfl, rfl, hslot, rfl⟩
      · exact .inl hr
  | _ => exact .inl hr

/-- A child that `on_sig_child` reaps is one it then has in hand. -/
theorem OscStep.reaped_cases {me : Nat} {k k' : Kernel} {o o' : Observer} {pc : OscPc}
    {l : OscLabel} {pc' : Option OscPc} (h : OscStep me k o pc l k' o' pc') {serial : Nat}
    (hr : serial ∈ k'.reaped) :
    serial ∈ k.reaped ∨ ∃ pid status child, pc' = some (.reaped pid status) ∧
      k.slots pid = .child child ∧ child.serial = serial := by
  cases h with
  | noMoreChildren hw ha =>
    rcases hw.cases_kernel with rfl | ⟨pid, child, t, -, -, -, rfl, -⟩
    · exact .inl hr
    · rcases ha with ha | ha <;> cases ha
  | stray hw =>
    rcases hw.cases_kernel with rfl | ⟨pid, child, t, -, -, -, ha, -⟩
    · exact .inl hr
    · cases ha
  | reaped hw =>
    rcases hw.cases_kernel with rfl | ⟨pid, child, t, hslot, -, -, ha, rfl⟩
    · exact .inl hr
    · cases ha
      rcases List.mem_cons.mp hr with rfl | hr
      · exact .inr ⟨_, _, child, rfl, hslot, rfl⟩
      · exact .inl hr
  | _ => exact .inl hr

namespace ObserverState

variable {s : ObserverState} {k' : Kernel} {o' : Observer}

/-- Who is inside an `add` of a child that stays in the map and is not found alive by a
step of some `add`, is so after the step. -/
theorem InsideAdd.addStep {c : ChildProcess} (h : s.InsideAdd c) {i : Nat} {pc : AddPc}
    {l : AddLabel} {pc' : Option AddPc} (hpc : s.adding i = some pc)
    (hstep : AddStep i s.kernel s.observer pc l k' o' pc')
    (hmap : o'.children c.pid = some c)
    (hdead : pc = .inserted c → l = .wait .nothing →
      ¬ Waitpid s.kernel (.process c.pid) .wnohang .nothing k') :
    (s.moveAdding i k' o' pc').InsideAdd c := by
  refine exists_update_of_some h hpc fun hwin => ?_
  rcases hstep.window_cases hwin with hkept | ⟨hins, hl, halive⟩ | rfl
  · exact hkept
  · exact absurd halive (hdead hins hl)
  · have hgone : (s.observer.erase c.pid).children c.pid = none := Function.update_self ..
    rw [hgone] at hmap
    cases hmap

end ObserverState

namespace Parent

variable {trap : SignalTrap} {p p' : Parent} {l : ParentLabel}

/-- After an `add` step that found its child alive, that child is not dead. -/
theorem Alone.not_alive (h : p.Alone) (hs : p.threads.Sound) {pid serial : Nat} {k' : Kernel}
    (hmap : p.threads.observer.children pid = some (.forked pid serial))
    (hdead : k'.Dead pid serial) :
    ¬ Waitpid p.threads.kernel (.process pid) .wnohang .nothing k' :=
  fun hw => hw.not_dead hs.wf h.nodup (hs.mapped _ _ hmap).2 hdead

theorem ReapedCovered.addStep (h : p.ReapedCovered) (ha : p.Alone) (hs : p.threads.Sound)
    {i : Nat} {pc : AddPc} {al : AddLabel} {k' : Kernel} {o' : Observer} {pc' : Option AddPc}
    (hpc : p.threads.adding i = some pc)
    (hstep : AddStep i p.threads.kernel p.threads.observer pc al k' o' pc') :
    ReapedCovered { p with threads := p.threads.moveAdding i k' o' pc' } := by
  intro pid serial hmap hr
  rcases hstep.children hmap with hold | ⟨-, -, hpc'⟩
  · rcases hstep.reaped_cases hr with hr' | ⟨c, child, rfl, rfl, hslot, rfl⟩
    · rcases h pid serial hold hr' with hholds | hinside
      · exact .inl hholds
      · exact .inr (hinside.addStep hpc hstep hmap fun _ _ => ha.not_alive hs hold (.inr hr))
    · -- the `add` has reaped the child itself: its pid is that of the child in the map
      have hmade := (hs.mapped _ _ hold).2
      have hpid : c.pid = pid := by
        have hfork := (hs.wf.slot _ _ hslot).1
        rw [hmade] at hfork
        exact (Option.some.inj hfork).symm
      have hc := ChildProcess.Made.eq_forked hs.wf ha.nodup hmade (hs.adding i _ hpc) hpid
      obtain rfl : c = .forked pid child.serial := hc
      exact .inr ⟨i, _, Function.update_self .., rfl⟩
  · subst hpc'
    exact .inr ⟨i, _, Function.update_self .., rfl⟩

theorem ZombieCovered.addStep (h : p.ZombieCovered) (ha : p.Alone) (hs : p.threads.Sound)
    {i : Nat} {pc : AddPc} {al : AddLabel} {k' : Kernel} {o' : Observer} {pc' : Option AddPc}
    (hpc : p.threads.adding i = some pc)
    (hstep : AddStep i p.threads.kernel p.threads.observer pc al k' o' pc') :
    ZombieCovered { p with threads := p.threads.moveAdding i k' o' pc' } := by
  intro pid serial hmap hz
  have hframe : p.threads.kernel.Zombie pid serial ∧ k'.sigchld = p.threads.kernel.sigchld := by
    rcases hstep.kernel_cases with rfl | ⟨a, hw⟩
    · exact ⟨hz, rfl⟩
    · exact ⟨hw.zombie hz, hw.sigchld⟩
  rcases hstep.children hmap with hold | ⟨-, -, hpc'⟩
  · rcases h pid serial hold hframe.1 with hpending | hdraining | hinside
    · exact .inl (hframe.2.trans hpending)
    · exact .inr (.inl hdraining)
    · exact .inr (.inr (hinside.addStep hpc hstep hmap fun _ _ => ha.not_alive hs hold (.inl hz)))
  · subst hpc'
    exact .inr (.inr ⟨i, _, Function.update_self .., rfl⟩)

theorem ReapedCovered.oscStep (h : p.ReapedCovered) (hs : p.threads.Sound) {pc : OscPc}
    {ol : OscLabel} {k' : Kernel} {o' : Observer} {pc' : Option OscPc}
    (hpc : p.threads.handling trapThread = some pc)
    (hstep : OscStep trapThread p.threads.kernel p.threads.observer pc ol k' o' pc') :
    ReapedCovered { p with threads := p.threads.moveHandling trapThread k' o' pc' } := by
  intro pid serial hmap hr
  have hold := hstep.children hmap
  rcases hstep.reaped_cases hr with hr' | ⟨q, status, child, rfl, hslot, rfl⟩
  · rcases h pid serial hold hr' with ⟨b, hb, hholding⟩ | hinside
    · rw [hpc] at hb
      cases hb
      rcases hstep.holding_cases (hs.handling _ _ hpc) hholding with ⟨b, rfl, hb⟩ | hnone
      · refine .inl ⟨b, ?_, hb⟩
        show Function.update p.threads.handling trapThread (some b) trapThread = some b
        exact Function.update_self ..
      · exact absurd (hmap.symm.trans hnone) (by simp)
    · exact .inr hinside
  · have hfork := (hs.wf.slot _ _ hslot).1
    have hmade : p.threads.kernel.forks[child.serial]? = some pid := (hs.mapped _ _ hold).2
    rw [hmade] at hfork
    obtain rfl := Option.some.inj hfork
    refine .inl ⟨.reaped pid status, ?_, rfl⟩
    show Function.update p.threads.handling trapThread _ trapThread = _
    exact Function.update_self ..

/-- When the loop of `on_sig_child` ends, no child is waiting to be reaped. -/
theorem Alone.no_zombie (h : p.Alone) {a : WaitAnswer} {k' : Kernel}
    (hw : Waitpid p.threads.kernel .ownGroup .wnohang a k')
    (ha : a = .nothing ∨ a = .failed .echild) (pid serial : Nat) :
    ¬ p.threads.kernel.Zombie pid serial := by
  rintro ⟨c, t, hslot, -, hphase⟩
  exact (hw.not_doomed ha).2 pid c ⟨hslot, h.grouped pid c hslot, t, hphase⟩

/-- A step of `on_sig_child` that stays in the loop will call `waitpid` again, and one
that leaves it has found nothing to reap. -/
theorem Alone.zombieCovered_oscStep (ha : p.Alone) {pc : OscPc} {ol : OscLabel}
    {k' : Kernel} {o' : Observer} {pc' : Option OscPc}
    (hstep : OscStep trapThread p.threads.kernel p.threads.observer pc ol k' o' pc') :
    ZombieCovered { p with threads := p.threads.moveHandling trapThread k' o' pc' } := by
  intro pid serial hmap hz
  cases hpc' : pc' with
  | some b =>
    -- still inside the loop
    refine .inr (.inl (.inr ?_))
    show Function.update p.threads.handling trapThread (some b) trapThread ≠ none
    rw [Function.update_self]
    exact Option.some_ne_none b
  | none =>
    subst hpc'
    cases hstep with
    | noMoreChildren hw hend => exact absurd (hw.zombie hz) (ha.no_zombie hw hend pid serial)

end Parent

/-! ## The trap thread hands every `SIGCHLD` on -/

/-- A record for `SIGCHLD` stays ahead of the loop until the loop emits it. -/
theorem RunState.Dequeued.step {trap : SignalTrap} {t t' : RunState} {l : RunLabel}
    (htrap : trap.has Signal.sigChld = true) (hrec : t.RecordsRead) (h : t.Dequeued)
    (hstep : RunStep trap t l t') : t'.Dequeued ∨ Signal.sigChld ∈ newlyRaised t t' := by
  obtain ⟨signos, fits, info, ls, event, j, hpc, hle, hj⟩ := h
  have hlen : j < signos.length := (List.getElem?_eq_some_iff.mp hj).1
  have hbound := loopBound_records fits
  cases hstep with
  | @iterate d l₀ l' event' hpc' hl =>
    rw [hpc] at hpc'
    cases hpc'
    obtain ⟨hlt, rfl⟩ := loopStep_eq_some.mp hl
    by_cases heq : ls.i = j
    · -- this is the record: the loop emits it
      right
      have hinfo : info ls.i = sigchldNo := hrec _ _ _ _ _ hpc _ _ (heq ▸ hj)
      have hemits : iterEmits trap ⟨.records signos fits, info⟩ ls.i = [Signal.sigChld] := by
        show (if trap.has ⟨(info ls.i : Nat)⟩ then [(⟨(info ls.i : Nat)⟩ : Signal)] else []) = _
        rw [hinfo]
        exact if_pos htrap
      show Signal.sigChld ∈ (t.raised ++ _).drop t.raised.length
      rw [List.drop_left, hemits]
      exact List.mem_singleton_self _
    · -- it is still ahead: the index moves on by at most one
      left
      refine ⟨signos, fits, info, _, event, j, rfl, ?_, hj⟩
      show (ls.i + 1) % 2 ^ 32 ≤ j
      have hle' : (ls.i + 1) % 2 ^ 32 ≤ ls.i + 1 := Nat.mod_le _ _
      omega
  | loopDone hpc' hl =>
    rw [hpc] at hpc'
    cases hpc'
    have hge := loopStep_eq_none.mp hl
    have hge' : signos.length ≤ ls.i := hbound ▸ hge
    omega
  | interrupted hpc' | pollFailed hpc' | timeout hpc' | signalReady hpc' | signalIdle hpc'
  | read hpc' | stopped hpc' | again hpc' =>
    rw [hpc] at hpc'
    cases hpc'

/-- A pending `SIGCHLD` stays pending until `run` reads its record. -/
theorem TrapAnswer.pending {trap : SignalTrap} {t t' : RunState} {k k' : Kernel} {l : RunLabel}
    (h : TrapAnswer k l k') (hstep : RunStep trap t l t') (hk : k.sigchld = true) :
    k'.sigchld = true ∨ t'.Dequeued := by
  cases h with
  | @dequeued signos fits hmem hpending =>
    cases hstep with
    | read hpc =>
      obtain ⟨j, hj⟩ := List.mem_iff_getElem?.mp hmem
      exact .inr ⟨signos, fits, _, _, _, j, rfl, Nat.zero_le j, hj⟩
  | ready | timeout | pollError | others | readError | tau => exact .inl hk

namespace Parent

variable {trap : SignalTrap} {p p' : Parent} {l : ParentLabel}

theorem ZombieCovered.trapStep (htrap : trap.has Signal.sigChld = true) (h : p.ZombieCovered)
    (hrec : p.trap.RecordsRead) {rl : RunLabel} {k' : Kernel} {t' : RunState}
    (hidle : p.threads.handling trapThread = none) (hrun : RunStep trap p.trap rl t')
    (hk : TrapAnswer p.threads.kernel rl k') :
    (p.moveTrap k' t').ZombieCovered := by
  intro pid serial hmap hz
  have hz' : p.threads.kernel.Zombie pid serial := by
    rw [hk.kernel_eq] at hz
    exact hz
  rcases h pid serial hmap hz' with hpending | hdraining | hinside
  · rcases hk.pending hrun hpending with hpending' | hdeq
    · exact .inl hpending'
    · exact .inr (.inl (.inl hdeq))
  · have hdeq : p.trap.Dequeued := hdraining.resolve_right fun hne => hne hidle
    rcases hdeq.step htrap hrec hrun with hdeq' | hraised
    · exact .inr (.inl (.inl hdeq'))
    · -- the emission calls `on_sig_child`
      refine .inr (.inl (.inr ?_))
      show Function.update p.threads.handling trapThread (onSignalRaised _) trapThread ≠ none
      rw [Function.update_self, onSignalRaised, if_pos hraised]
      exact Option.some_ne_none _
  · exact .inr (.inr hinside)

/-! ## Whole runs -/

theorem Logged.addStep (h : p.Logged) (ha : p.Alone) (hs : p.threads.Sound)
    (hann : p.threads.Announced) {i : Nat} {pc : AddPc} {al : AddLabel} {k' : Kernel}
    {o' : Observer} {pc' : Option AddPc} (hpc : p.threads.adding i = some pc)
    (hstep : AddStep i p.threads.kernel p.threads.observer pc al k' o' pc') :
    Logged { p with threads := p.threads.moveAdding i k' o' pc' } := by
  intro pid serial hins
  rcases hstep.inserted_cases hins with hold | hnew
  · rcases h pid serial hold with hmap | hdied
    · rcases hstep.children_kept hmap with hkept | ⟨d, rfl, hpid⟩
      · exact .inl hkept
      · -- an erasure under this pid is the erasure of this child, which was announced
        obtain rfl : d = .forked pid serial :=
          ChildProcess.Made.eq_forked hs.wf ha.nodup (hs.mapped _ _ hmap).2
            (hs.adding i _ hpc) hpid
        exact .inr (hstep.died_mono (hann.adding i _ hpc _ rfl))
    · exact .inr (hstep.died_mono hdied)
  · exact .inl hnew

theorem Logged.oscStep (h : p.Logged) (ha : p.Alone) (hs : p.threads.Sound)
    (hann : p.threads.Announced) {i : Nat} {pc : OscPc} {ol : OscLabel} {k' : Kernel}
    {o' : Observer} {pc' : Option OscPc} (hpc : p.threads.handling i = some pc)
    (hstep : OscStep i p.threads.kernel p.threads.observer pc ol k' o' pc') :
    Logged { p with threads := p.threads.moveHandling i k' o' pc' } := by
  intro pid serial hins
  have hold : .forked pid serial ∈ p.threads.observer.inserted := hstep.inserted_eq ▸ hins
  rcases h pid serial hold with hmap | hdied
  · rcases hstep.children_kept hmap with hkept | ⟨d, rfl⟩
    · exact .inl hkept
    · obtain ⟨hpid, hmade⟩ := hs.handling i _ hpc
      obtain rfl : d = .forked pid serial :=
        ChildProcess.Made.eq_forked hs.wf ha.nodup (hs.mapped _ _ hmap).2 hmade hpid
      exact .inr (hstep.died_mono (hann.handling i _ hpc _ _ rfl))
  · exact .inr (hstep.died_mono hdied)

/-- What holds in every state of an undisturbed parent. -/
structure Inv (p : Parent) : Prop where
  sound : p.threads.Sound
  announced : p.threads.Announced
  alone : p.Alone
  records : p.trap.RecordsRead
  reaped : p.ReapedCovered
  zombie : p.ZombieCovered
  logged : p.Logged

theorem Inv.threadsStep (h : p.Inv) {ol : ObserverLabel} {s' : ObserverState}
    (hstep : ObserverStep p.threads ol s') (hl : Undisturbed p (.threads ol)) :
    ReapedCovered { p with threads := s' } ∧ ZombieCovered { p with threads := s' } ∧
      Logged { p with threads := s' } := by
  cases hstep with
  | kernel hk =>
    refine ⟨fun pid serial hmap hr => ?_, fun pid serial hmap hz => ?_, h.logged⟩
    · exact h.reaped pid serial hmap (hk.reaped ▸ hr)
    · rcases hk.zombie hz with hz' | hpending
      · rcases h.zombie pid serial hmap hz' with hpending | hdraining | hinside
        · exact .inl (hk.sigchld hpending)
        · exact .inr (.inl hdraining)
        · exact .inr (.inr hinside)
      · exact .inl hpending
  | @callAdd i c hidle hmade =>
    have hkept : ∀ d, p.threads.InsideAdd d → (p.threads.moveAdding i p.threads.kernel
        p.threads.observer (some (.start c))).InsideAdd d := by
      intro d hd
      exact exists_update_of_none hd hidle
    refine ⟨fun pid serial hmap hr => ?_, fun pid serial hmap hz => ?_, h.logged⟩
    · exact (h.reaped pid serial hmap hr).imp_right (hkept _)
    · exact (h.zombie pid serial hmap hz).imp_right (Or.imp_right (hkept _))
  | add hpc hadd =>
    exact ⟨h.reaped.addStep h.alone h.sound hpc hadd,
      h.zombie.addStep h.alone h.sound hpc hadd,
      h.logged.addStep h.alone h.sound h.announced hpc hadd⟩
  | callOnSigChild => exact hl.elim
  | onSigChild hpc hosc =>
    obtain rfl := h.alone.thread_eq hpc
    exact ⟨h.reaped.oscStep h.sound hpc hosc, h.alone.zombieCovered_oscStep hosc,
      h.logged.oscStep h.alone h.sound h.announced hpc hosc⟩
  | waitFor => exact hl.elim

theorem Inv.trapStep (htrap : trap.has Signal.sigChld = true) (h : p.Inv) {rl : RunLabel}
    {k' : Kernel} {t' : RunState} (hidle : p.threads.handling trapThread = none)
    (hrun : RunStep trap p.trap rl t') (hk : TrapAnswer p.threads.kernel rl k')
    (halone : (p.moveTrap k' t').Alone) : (p.moveTrap k' t').Inv where
  sound := by
    have hpc : ∀ pc, onSignalRaised (newlyRaised p.trap t') = some pc → pc = .wait := by
      intro pc hpc
      unfold onSignalRaised at hpc
      split at hpc <;> cases hpc
      rfl
    rw [hk.kernel_eq]
    refine h.sound.moveHandling ?_ (fun _ _ hs => hs) h.sound.mapped fun pc hpc' => ?_
    · exact ⟨h.sound.wf.slot, h.sound.wf.owner, h.sound.wf.pid_pos, h.sound.wf.reaped_lt⟩
    · rw [hpc pc hpc']
      trivial
  announced := by
    refine ⟨h.announced.adding, forall_update
      (fun j pc _ => h.announced.handling j pc) fun pc hpc pid c hc => ?_⟩
    subst hc
    unfold onSignalRaised at hpc
    split at hpc <;> cases hpc
  alone := halone
  records := h.records.step hrun
  reaped := by
    intro pid serial hmap hr
    have hr' : serial ∈ p.threads.kernel.reaped := by
      rw [hk.kernel_eq] at hr
      exact hr
    rcases h.reaped pid serial hmap hr' with ⟨pc, hpc, -⟩ | hinside
    · rw [hidle] at hpc
      cases hpc
    · exact .inr hinside
  zombie := h.zombie.trapStep htrap h.records hidle hrun hk
  logged := h.logged

theorem Inv.step (htrap : trap.has Signal.sigChld = true) (h : p.Inv)
    (hstep : ParentStep trap p l p') (hl : Undisturbed p l) : p'.Inv := by
  have halone := h.alone.step hstep hl
  cases hstep with
  | threads hthreads =>
    obtain ⟨hreaped, hzombie, hlogged⟩ := h.threadsStep hthreads hl
    exact ⟨h.sound.step hthreads, h.announced.step hthreads, halone, h.records, hreaped, hzombie,
      hlogged⟩
  | trap hidle hrun hk => exact h.trapStep htrap hidle hrun hk halone

theorem Inv.start {o : Observer} (ho : Observer.ctor trap = .ok o) {k : Kernel} (hk : k.Fresh)
    (info : Nat → Nat) : (start k o info).Inv := by
  obtain ⟨-, rfl⟩ := Observer.ctor_eq_ok ho
  refine ⟨.start hk, ⟨nofun, nofun⟩, ⟨?_, fun pid c hslot => ?_, fun _ _ => rfl⟩, nofun, nofun,
    nofun, nofun⟩
  · show k.forks.Nodup
    rw [hk.forks]
    exact List.nodup_nil
  · exact absurd hslot (hk.slots pid c)

theorem Inv.run {o : Observer} (ho : Observer.ctor trap = .ok o) {k : Kernel} (hk : k.Fresh)
    {info : Nat → Nat} {ls : List ParentLabel}
    (h : ((parentSystem trap).restrict Undisturbed).Run (.start k o info) ls p) : p.Inv := by
  refine h.invariant (P := Inv) (fun q a q' hstep hinv => ?_) (Inv.start ho hk info)
  exact hinv.step (Observer.ctor_eq_ok ho).1 hstep.1 hstep.2

/-- Somebody is on the way to every dead child in the map. -/
theorem Inv.covered (h : p.Inv) {key pid serial : Nat}
    (hmap : p.threads.observer.children key = some (.forked pid serial))
    (hdead : p.threads.kernel.Dead pid serial) :
    p.threads.kernel.sigchld = true ∨ p.Draining ∨ p.threads.HoldsUnannounced pid ∨
      p.threads.InsideAdd (.forked pid serial) := by
  obtain rfl : pid = key := (h.sound.mapped _ _ hmap).1
  rcases hdead with hz | hr
  · rcases h.zombie pid serial hmap hz with hpending | hdraining | hinside
    · exact .inl hpending
    · exact .inr (.inl hdraining)
    · exact .inr (.inr (.inr hinside))
  · rcases h.reaped pid serial hmap hr with ⟨pc, hpc, -⟩ | hinside
    · -- a thread with a pid in hand is inside the loop, also after the emission
      refine .inr (.inl (.inr ?_))
      rw [hpc]
      exact Option.some_ne_none pc
    · exact .inr (.inr (.inr hinside))

/-- When nobody is on the way, no child in the map is dead. -/
theorem Inv.alive_of_quiet (h : p.Inv) (hidle : p.Idle)
    (hpending : p.threads.kernel.sigchld = false) (hadd : ∀ i, p.threads.adding i = none)
    {key pid serial : Nat}
    (hmap : p.threads.observer.children key = some (.forked pid serial)) :
    ¬ p.threads.kernel.Dead pid serial := by
  obtain ⟨hpoll, hhandling⟩ := hidle
  intro hdead
  rcases h.covered hmap hdead with hp | (hdeq | hbusy) | ⟨pc, hpc, -⟩ | ⟨i, pc, hpc, -⟩
  · rw [hpending] at hp
    cases hp
  · obtain ⟨signos, fits, info, ls, event, j, hpc, -⟩ := hdeq
    rw [hpoll] at hpc
    cases hpc
  · exact hbusy hhandling
  · rw [hhandling] at hpc
    cases hpc
  · rw [hadd i] at hpc
    cases hpc

end Parent

/-- **No death is missed.** In every reachable state of an undisturbed parent, a dead
child in `children` has its `SIGCHLD` pending, or the trap thread has dequeued it and is
not done with `waitpid`, or holds the reaped pid and has not announced it, or an `add` of
that child is between its insertion and its erasure. So when the trap thread is idle, no
`SIGCHLD` is pending and no `add` is in progress, no dead child is in `children`, and
every dead child that was ever inserted has been announced. -/
theorem no_missed_death (trap : SignalTrap) (o : Observer) (ho : Observer.ctor trap = .ok o)
    (k : Kernel) (hk : k.Fresh) (info : Nat → Nat) (ls : List ParentLabel) (p : Parent)
    (h : ((parentSystem trap).restrict Undisturbed).Run (.start k o info) ls p) :
    (∀ key pid serial, p.threads.observer.children key = some (.forked pid serial) →
      p.threads.kernel.Dead pid serial →
        p.threads.kernel.sigchld = true ∨ p.Draining ∨ p.threads.HoldsUnannounced pid ∨
          p.threads.InsideAdd (.forked pid serial)) ∧
    (p.Idle → p.threads.kernel.sigchld = false → (∀ i, p.threads.adding i = none) →
      (∀ key pid serial, p.threads.observer.children key = some (.forked pid serial) →
        ¬ p.threads.kernel.Dead pid serial) ∧
      ∀ pid serial, .forked pid serial ∈ p.threads.observer.inserted →
        p.threads.kernel.Dead pid serial → .forked pid serial ∈ p.threads.observer.died) := by
  have hinv := Parent.Inv.run ho hk h
  refine ⟨fun key pid serial => hinv.covered, fun hidle hpending hadd => ?_⟩
  have halive := fun key pid serial =>
    @Parent.Inv.alive_of_quiet p hinv hidle hpending hadd key pid serial
  refine ⟨halive, fun pid serial hins hdead => ?_⟩
  rcases hinv.logged pid serial hins with hmap | hdied
  · exact absurd hdead (halive pid pid serial hmap)
  · exact hdied

theorem chldTrap_observed : Observer.ctor chldTrap = .ok .initial := by
  have htrap : chldTrap.has Signal.sigChld = true := by decide
  unfold Observer.ctor
  rw [if_pos htrap]

/-- A child that ends while it is being added. -/
def diesDuringAdd : List ParentLabel :=
  [.threads (.kernel (.fork 7)), .threads (.callAdd 0 (.forked 7 0)), .threads (.add 0 .lock),
    .threads (.add 0 .insert), .threads (.kernel (.die 7 (.exited 0)))]

/-- How it goes on: `add` reaps the child itself and announces it, and `on_sig_child`
finds nothing left. -/
def announcedByAdd : List ParentLabel :=
  [.threads (.add 0 (.wait (.changed 7 (.terminated (.exited 0))))), .threads (.add 0 .emit),
    .threads (.add 0 .erase), .threads (.add 0 (.ret false)), .trap (.poll (.ready true false)),
    .trap (.read (.records [17] chldRecord_fits)), .trap .tau,
    .threads (.onSigChild 0 (.wait (.failed .echild))), .trap .tau, .trap .tau]

theorem diesDuringAdd_run :
    ∃ p, ((parentSystem chldTrap).restrict Undisturbed).Run
        (.start .initOnly .initial fun _ => 0) diesDuringAdd p ∧
      p.threads.observer.children 7 = some (.forked 7 0) ∧ p.threads.kernel.Zombie 7 0 :=
  ⟨_, .cons ⟨.threads (.kernel (.fork (by decide) rfl)), List.not_mem_nil⟩
    (.cons ⟨.threads (.callAdd rfl rfl), trivial⟩
    (.cons ⟨.threads (.add rfl (.lock (by decide) rfl)), trivial⟩
    (.cons ⟨.threads (.add rfl (.insert rfl)), trivial⟩
    (.cons ⟨.threads (.kernel (.die rfl nofun)), trivial⟩ (.nil _))))),
    rfl, _, _, rfl, rfl, rfl⟩

theorem announcedByAdd_run :
    ∃ p, ((parentSystem chldTrap).restrict Undisturbed).Run
        (.start .initOnly .initial fun _ => 0)
        (diesDuringAdd ++ announcedByAdd) p ∧
      p.Idle ∧ p.threads.kernel.sigchld = false ∧ (∀ i, p.threads.adding i = none) ∧
      0 ∈ p.threads.kernel.reaped ∧ .forked 7 0 ∈ p.threads.observer.inserted := by
  refine ⟨_, .cons ⟨.threads (.kernel (.fork (by decide) rfl)), List.not_mem_nil⟩
    (.cons ⟨.threads (.callAdd rfl rfl), trivial⟩
    (.cons ⟨.threads (.add rfl (.lock (by decide) rfl)), trivial⟩
    (.cons ⟨.threads (.add rfl (.insert rfl)), trivial⟩
    (.cons ⟨.threads (.kernel (.die rfl nofun)), trivial⟩
    (.cons ⟨.threads (.add rfl (.gone (.reap rfl rfl rfl) nofun)), trivial⟩
    (.cons ⟨.threads (.add rfl .emit), trivial⟩
    (.cons ⟨.threads (.add rfl .erase), trivial⟩
    (.cons ⟨.threads (.add rfl .unlock), trivial⟩
    (.cons ⟨.trap rfl (.signalReady rfl) (.ready fun _ => rfl), trivial⟩
    (.cons ⟨.trap rfl (.read rfl) (.dequeued (by decide) rfl), trivial⟩
    (.cons ⟨.trap rfl (.iterate rfl rfl) .tau, trivial⟩
    (.cons ⟨.threads (.onSigChild rfl (.noMoreChildren (.noChild ?_) (.inr rfl))), trivial⟩
    (.cons ⟨.trap rfl (.loopDone rfl rfl) .tau, trivial⟩
    (.cons ⟨.trap rfl (.again rfl) .tau, trivial⟩ (.nil _))))))))))))))), ?_⟩
  · -- the only child has been reaped
    intro pid c hslot
    rcases Kernel.slots_setSlot_cases hslot with ⟨-, hv⟩ | ⟨hne, hs⟩
    · cases hv
    · rw [Kernel.slots_raise, Kernel.slots_setSlot_of_ne _ _ hne] at hs
      rcases Kernel.slots_setSlot_cases hs with ⟨heq, -⟩ | ⟨-, hs⟩
      · exact absurd heq hne
      · exact absurd hs (Kernel.initOnly_fresh.slots pid c)
  · refine ⟨⟨rfl, rfl⟩, rfl, fun i => ?_, List.mem_singleton_self 0, List.mem_singleton_self _⟩
    by_cases hi : i = 0
    · subst hi
      rfl
    · simp only [Parent.moveTrap, ObserverState.moveHandling, ObserverState.moveAdding,
        Function.update_of_ne hi]
      rfl

theorem no_missed_death_diesDuringAdd :
    (∃ p, ((parentSystem chldTrap).restrict Undisturbed).Run
        (.start .initOnly .initial fun _ => 0) diesDuringAdd p ∧
      p.threads.observer.children 7 = some (.forked 7 0) ∧ p.threads.kernel.Dead 7 0 ∧
      (p.threads.kernel.sigchld = true ∨ p.Draining ∨ p.threads.HoldsUnannounced 7 ∨
        p.threads.InsideAdd (.forked 7 0))) ∧
    ∃ p, ((parentSystem chldTrap).restrict Undisturbed).Run
        (.start .initOnly .initial fun _ => 0)
        (diesDuringAdd ++ announcedByAdd) p ∧
      p.Idle ∧ p.threads.kernel.sigchld = false ∧ (∀ i, p.threads.adding i = none) ∧
      .forked 7 0 ∈ p.threads.observer.died := by
  obtain ⟨p, hrun, hmap, hz⟩ := diesDuringAdd_run
  obtain ⟨q, hrun', hidle, hpending, hadd, hreaped, hins⟩ := announcedByAdd_run
  refine ⟨⟨p, hrun, hmap, .inl hz, ?_⟩, q, hrun', hidle, hpending, hadd, ?_⟩
  · exact (no_missed_death chldTrap _ chldTrap_observed .initOnly Kernel.initOnly_fresh _ _ p
      hrun).1 7 7 0 hmap (.inl hz)
  · exact ((no_missed_death chldTrap _ chldTrap_observed .initOnly Kernel.initOnly_fresh _ _ q
      hrun').2 hidle hpending hadd).2 7 0 hins (.inr hreaped)

end ProcessCpp.Core
