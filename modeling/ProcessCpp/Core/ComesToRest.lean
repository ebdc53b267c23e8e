import Mathlib.Algebra.BigOperators.Group.Finset.Basic
import ProcessCpp.Core.ObserverRun
import ProcessCpp.Core.ReapingLoop

/-!
# Every death is announced (child_process.cpp:65–139, signal.cpp:132–176)

`Core/ObserverRun.lean` says that somebody is on the way to every dead child in the map. Here
they arrive: the loop of `run`, the loops of `on_sig_child` it starts and all calls of `add`,
in any order of their steps, come to rest, and then every child that was added and has ended
has been announced.

- `RunLabel.Smooth`, `RunPc.OnCourse`: as long as nobody stops `run`, its `poll` does not fail
  and no read of the signalfd does, the loop comes back to its `poll`; after such an answer it
  never does;
- `ObserverState.Manned`: the thread that has locked `guard` is there to unlock it;
- `Parent.potential`: what is left to do. All steps use it up, except for the returns of
  `poll`, `read` and `waitpid` that bring nothing (`bringsNothing`);
- `deaths_come_out`: the parent comes to rest if `run` has only had smooth answers, and
  otherwise it never does.
-/

namespace ProcessCpp.Core

open ProcessCpp.Base ProcessCpp.Posix

/-! ## The loop of `run` while nobody stops it -/

/-- An answer that does not make `run` leave, and no failed read, after which the record loop
does not end. -/
def RunLabel.Smooth : RunLabel → Prop
  | .poll (.error e) => e = .eintr
  | .poll .timeout => True
  | .poll (.ready _ event) => event = false
  | .read (.records _ _) => True
  | .read (.failed _) => False
  | .tau => True

/-- The loop will come back to its `poll`. -/
def RunPc.OnCourse : RunPc → Prop
  | .poll => True
  | .read event => event = false
  | .dispatch d _ event => event = false ∧ ¬ d.answer.Failed
  | .checkEvent event => event = false
  | .left => False

/-- How far the loop is from its next `poll`. One more round costs at most fourteen. -/
def RunPc.todo : RunPc → Nat
  | .poll => 14
  | .read _ => 13
  -- every record that is still to be looked at may start an `on_sig_child`
  | .dispatch d l _ => 16 + 2 * (d.answer.count - l.i)
  | .checkEvent _ => 15
  | .left => 0

section

variable {trap : SignalTrap} {t t' : RunState} {l : RunLabel}

theorem not_failed_of_loopDone (hfollows : FollowsLoop trap t) {d : Dispatch} {ls : LoopState}
    {event : Bool} (hpc : t.pc = .dispatch d ls event) (hdone : loopStep trap d ls = none) :
    ¬ d.answer.Failed := by
  rintro ⟨e, he⟩
  obtain ⟨-, n, hn⟩ := hfollows d ls event hpc
  have hlt := (loopAfter_accessed hn).1
  have hge := loopStep_eq_none.mp hdone
  rw [he, loopBound_failed] at hge
  omega

theorem RunStep.onCourse_iff (h : RunStep trap t l t') (hfollows : FollowsLoop trap t) :
    t'.pc.OnCourse ↔ t.pc.OnCourse ∧ l.Smooth := by
  cases h with
  | interrupted => exact (and_iff_left rfl).symm
  | timeout => exact (and_iff_left trivial).symm
  | pollFailed _ he => exact ⟨False.elim, fun hcourse => he hcourse.2⟩
  | signalReady hpc | signalIdle hpc =>
    rw [hpc]
    exact (and_iff_right trivial).symm
  | @read event a hpc =>
    rw [hpc]
    refine and_congr_right fun _ => ?_
    cases a with
    | records => exact ⟨fun _ => trivial, fun _ => fun ⟨e, he⟩ => ReadAnswer.noConfusion he⟩
    | failed e => exact ⟨fun hnot => hnot ⟨e, rfl⟩, False.elim⟩
  | iterate hpc =>
    rw [hpc]
    exact (and_iff_left trivial).symm
  | loopDone hpc hdone =>
    rw [hpc]
    have hread := not_failed_of_loopDone hfollows hpc hdone
    exact ⟨fun hevent => ⟨⟨hevent, hread⟩, trivial⟩, fun hcourse => hcourse.1.1⟩
  | stopped hpc =>
    rw [hpc]
    exact ⟨False.elim, fun hcourse => Bool.noConfusion hcourse.1⟩
  | again hpc =>
    rw [hpc]
    exact ⟨fun _ => ⟨rfl, trivial⟩, fun _ => trivial⟩

end

/-! ## The mutex -/

/-- The thread that has locked the mutex is inside its critical section. -/
structure ObserverState.Manned (s : ObserverState) : Prop where
  adding : ∀ i, s.observer.guard = some (.add i) →
    ∃ pc, s.adding i = some pc ∧ pc.critical = true
  handling : ∀ i, s.observer.guard = some (.onSigChild i) →
    ∃ pc, s.handling i = some pc ∧ pc.critical = true

section

variable {s s' : ObserverState} {k k' : Kernel} {o o' : Observer} {me : Nat} {g : Locker}

/-- After a step of `add` the mutex has the owner it had, or this call has just locked it; and
as long as it is locked, a call that was inside is inside. -/
theorem AddStep.owner {pc : AddPc} {l : AddLabel} {pc' : Option AddPc}
    (h : AddStep me k o pc l k' o' pc') (hg : o'.guard = some g) :
    (o.guard = some g ∨ (g = .add me ∧ ∃ b, pc' = some b ∧ b.critical = true)) ∧
      (pc.critical = true → ∃ b, pc' = some b ∧ b.critical = true) := by
  cases h with
  | invalidPid => exact ⟨.inl hg, nofun⟩
  | lock =>
    cases hg
    exact ⟨.inr ⟨rfl, _, rfl, rfl⟩, nofun⟩
  | unlock => cases hg
  | _ => exact ⟨.inl hg, fun _ => ⟨_, rfl, rfl⟩⟩

theorem OscStep.owner {pc : OscPc} {l : OscLabel} {pc' : Option OscPc}
    (h : OscStep me k o pc l k' o' pc') (hg : o'.guard = some g) :
    (o.guard = some g ∨ (g = .onSigChild me ∧ ∃ b, pc' = some b ∧ b.critical = true)) ∧
      (pc.critical = true → ∃ b, pc' = some b ∧ b.critical = true) := by
  cases h with
  | noMoreChildren | stray | reaped => exact ⟨.inl hg, nofun⟩
  | lock =>
    cases hg
    exact ⟨.inr ⟨rfl, _, rfl, rfl⟩, nofun⟩
  | unlock => cases hg
  | _ => exact ⟨.inl hg, fun _ => ⟨_, rfl, rfl⟩⟩

theorem ObserverState.Manned.addStep (h : s.Manned) {i : Nat} {pc : AddPc} {l : AddLabel}
    {pc' : Option AddPc} (hpc : s.adding i = some pc)
    (hstep : AddStep i s.kernel s.observer pc l k' o' pc') :
    (s.moveAdding i k' o' pc').Manned := by
  refine ⟨fun j hj => ?_, fun j hj => ?_⟩
  · obtain ⟨hold | ⟨hme, b, hb, hcrit⟩, hinside⟩ := hstep.owner hj
    · refine exists_update_at (h.adding j hold) fun b hb hcrit => ?_
      cases hpc.symm.trans hb
      exact hinside hcrit
    · cases hme
      exact ⟨b, (Function.update_self ..).trans hb, hcrit⟩
  · obtain ⟨hold | ⟨hme, -⟩, -⟩ := hstep.owner hj
    · exact h.handling j hold
    · cases hme

theorem ObserverState.Manned.oscStep (h : s.Manned) {i : Nat} {pc : OscPc} {l : OscLabel}
    {pc' : Option OscPc} (hpc : s.handling i = some pc)
    (hstep : OscStep i s.kernel s.observer pc l k' o' pc') :
    (s.moveHandling i k' o' pc').Manned := by
  refine ⟨fun j hj => ?_, fun j hj => ?_⟩
  · obtain ⟨hold | ⟨hme, -⟩, -⟩ := hstep.owner hj
    · exact h.adding j hold
    · cases hme
  · obtain ⟨hold | ⟨hme, b, hb, hcrit⟩, hinside⟩ := hstep.owner hj
    · refine exists_update_at (h.handling j hold) fun b hb hcrit => ?_
      cases hpc.symm.trans hb
      exact hinside hcrit
    · cases hme
      exact ⟨b, (Function.update_self ..).trans hb, hcrit⟩

theorem ObserverState.Manned.step {l : ObserverLabel} (h : s.Manned) (hstep : ObserverStep s l s') :
    s'.Manned := by
  cases hstep with
  | kernel | waitFor => exact ⟨h.adding, h.handling⟩
  | callAdd hidle =>
    refine ⟨fun j hj => exists_update_at (h.adding j hj) fun b hb => ?_, h.handling⟩
    cases hidle.symm.trans hb
  | add hpc hadd => exact h.addStep hpc hadd
  | callOnSigChild hidle =>
    refine ⟨h.adding, fun j hj => exists_update_at (h.handling j hj) fun b hb => ?_⟩
    cases hidle.symm.trans hb
  | onSigChild hpc hosc => exact h.oscStep hpc hosc

/-- `waitpid(2)` with `WNOHANG` has an answer for every pid. -/
theorem Kernel.answers (k : Kernel) (pid : Nat) :
    ∃ a k', Waitpid k (.process pid) .wnohang a k' := by
  by_cases hchild : ∃ c, k.slots pid = .child c
  · obtain ⟨c, hslot⟩ := hchild
    by_cases hended : ∃ t, c.phase = .zombie t
    · obtain ⟨t, hz⟩ := hended
      exact ⟨_, _, .reap hslot rfl hz⟩
    · refine ⟨_, _, .nothing rfl ⟨pid, c, hslot, rfl⟩ ?_⟩
      rintro q d t hd rfl hz
      cases hslot.symm.trans hd
      exact hended ⟨t, hz⟩
  · refine ⟨_, _, .noChild ?_⟩
    rintro q c hslot rfl
    exact hchild ⟨c, hslot⟩

/-- A call of `add` goes on, unless it has to wait for the mutex. -/
theorem AddStep.can_step (me : Nat) (k : Kernel) (o : Observer) (pc : AddPc)
    (h : pc.critical = true ∨ o.guard = none) : ∃ l k' o' pc', AddStep me k o pc l k' o' pc' := by
  cases pc with
  | start c =>
    have hfree : o.guard = none := h.resolve_left nofun
    have hpid : (c.pid : Int) ≠ -1 := by omega
    exact ⟨_, _, _, _, .lock hpid hfree⟩
  | locked c =>
    cases hold : o.children c.pid with
    | none => exact ⟨_, _, _, _, .insert hold⟩
    | some d => exact ⟨_, _, _, _, .present hold⟩
  | inserted c =>
    obtain ⟨a, k', hw⟩ := Kernel.answers k c.pid
    by_cases ha : a = .nothing
    · subst ha
      exact ⟨_, _, _, _, .alive hw⟩
    · exact ⟨_, _, _, _, .gone hw ha⟩
  | missed c => exact ⟨_, _, _, _, .emit⟩
  | emitted c => exact ⟨_, _, _, _, .erase⟩
  | leaving c result => exact ⟨_, _, _, _, .unlock⟩

theorem OscStep.can_step (me : Nat) (k : Kernel) (o : Observer) (pc : OscPc)
    (h : pc.critical = true ∨ o.guard = none) :
    ∃ l k' o' pc', OscStep me k o pc l k' o' pc' ∧ isStray (.own l) = false := by
  cases pc with
  | wait =>
    rcases k.doomed_or_none with ⟨pid, c, hslot, hin, t, hz⟩ | ⟨a, ha, hnobody⟩
    · exact ⟨_, _, _, _, .reaped (.reap hslot hin hz), rfl⟩
    · refine ⟨_, _, _, _, .noMoreChildren hnobody ha, ?_⟩
      rcases ha with rfl | rfl <;> rfl
  | reaped pid status => exact ⟨_, _, _, _, .lock (h.resolve_left nofun), rfl⟩
  | locked pid status =>
    cases hfind : o.children pid with
    | none => exact ⟨_, _, _, _, .notFound hfind, rfl⟩
    | some c => exact ⟨_, _, _, _, .found hfind, rfl⟩
  | found pid status c =>
    cases hended : wifsignaled status.word || wifexited status.word with
    | false => exact ⟨_, _, _, _, .skip hended, rfl⟩
    | true => exact ⟨_, _, _, _, .emit hended, rfl⟩
  | emitted pid c => exact ⟨_, _, _, _, .erase, rfl⟩
  | leaving => exact ⟨_, _, _, _, .unlock, rfl⟩

end

/-! ## What is left to do -/

/-- The steps a call of `add` has before it. -/
def effort : Option AddPc → Nat
  | some (.start _) => 6
  | some (.locked _) => 5
  | some (.inserted _) => 4
  | some (.missed _) => 3
  | some (.emitted _) => 2
  | some (.leaving _ _) => 1
  | none => 0

/-- The return of a system call that brings nothing: no `SIGCHLD`, no child, no end of the
loop. -/
def bringsNothing : ParentLabel → Bool
  | .threads (.onSigChild _ l) => isStray (.own l)
  | .trap (.poll (.error _)) => true
  | .trap (.poll .timeout) => true
  | .trap (.poll (.ready signal _)) => !signal
  | .trap (.read (.records signos _)) => decide (sigchldNo ∉ signos)
  | _ => false

/-- A pending `SIGCHLD` costs a round of `run`. -/
def pendingRound (k : Kernel) : Nat := if k.sigchld then 14 else 0

/-- What is left to do when only the threads `T` are inside `add`: six steps for every child that
can still be reaped, a round of `run` for a pending `SIGCHLD`, and what the calls in progress
have before them. -/
def Parent.potential (T : Finset Nat) (p : Parent) : Nat :=
  6 * (unreaped p.threads.kernel).card + ∑ i ∈ T, effort (p.threads.adding i) +
    weight (p.threads.handling trapThread) + p.trap.pc.todo + pendingRound p.threads.kernel

section

variable {k k' : Kernel} {o o' : Observer} {me : Nat}

theorem AddStep.effort {pc : AddPc} {l : AddLabel} {pc' : Option AddPc}
    (h : AddStep me k o pc l k' o' pc') : effort pc' + 1 ≤ Core.effort (some pc) := by
  cases h <;> simp [Core.effort]

theorem Waitpid.unreaped_le {target : WaitTarget} {opts : WaitOptions} {a : WaitAnswer}
    (h : Waitpid k target opts a k') (hwf : k.WF) : (unreaped k').card ≤ (unreaped k).card := by
  rcases h.cases_kernel with rfl | ⟨pid, c, t, hslot, -, -, -, rfl⟩
  · exact le_rfl
  · exact (unreaped_reap_lt hwf hslot).le

/-- Waiting for children leaves signals alone. -/
theorem AddStep.sigchld {pc : AddPc} {l : AddLabel} {pc' : Option AddPc}
    (h : AddStep me k o pc l k' o' pc') : k'.sigchld = k.sigchld := by
  rcases h.kernel_cases with rfl | ⟨a, hw⟩
  · rfl
  · exact hw.sigchld

theorem OscStep.sigchld {pc : OscPc} {l : OscLabel} {pc' : Option OscPc}
    (h : OscStep me k o pc l k' o' pc') : k'.sigchld = k.sigchld := by
  rcases h.kernel_cases with rfl | ⟨a, hw⟩
  · rfl
  · exact hw.sigchld

theorem AddStep.unreaped_le {pc : AddPc} {l : AddLabel} {pc' : Option AddPc}
    (h : AddStep me k o pc l k' o' pc') (hwf : k.WF) : (unreaped k').card ≤ (unreaped k).card := by
  rcases h.kernel_cases with rfl | ⟨a, hw⟩
  · exact le_rfl
  · exact Waitpid.unreaped_le hw hwf

/-- A round of `on_sig_child` costs a child. -/
theorem OscStep.unreaped_le {pc : OscPc} {l : OscLabel} {pc' : Option OscPc}
    (h : OscStep me k o pc l k' o' pc') (hwf : k.WF) :
    (unreaped k').card + (reapedBy l).length ≤ (unreaped k).card := by
  cases h with
  | noMoreChildren hw ha =>
    have hle := Waitpid.unreaped_le hw hwf
    rcases ha with rfl | rfl <;> exact hle
  | stray hw => exact Waitpid.unreaped_le hw hwf
  | reaped hw =>
    cases hw with
    | reap hslot => exact unreaped_reap_lt hwf hslot
    | stopped hopt => cases hopt
    | continued hopt => cases hopt
  | _ => exact le_rfl

/-- A step of one call of `add` lowers what all of them have before them. -/
theorem sum_effort_update {T : Finset Nat} {adding : Nat → Option AddPc} {i : Nat}
    {pc' : Option AddPc} (hi : i ∈ T) (hlower : effort pc' + 1 ≤ effort (adding i)) :
    ∑ j ∈ T, effort (Function.update adding i pc' j) + 1 ≤ ∑ j ∈ T, effort (adding j) := by
  rw [← Finset.add_sum_erase T _ hi, ← Finset.add_sum_erase T (fun j => effort (adding j)) hi]
  have hothers : ∑ j ∈ T.erase i, effort (Function.update adding i pc' j) =
      ∑ j ∈ T.erase i, effort (adding j) := by
    refine Finset.sum_congr rfl fun j hj => ?_
    rw [Function.update_of_ne (Finset.ne_of_mem_erase hj)]
  rw [hothers, Function.update_self]
  omega

end

section

variable {trap : SignalTrap} {t t' : RunState} {k k' : Kernel} {l : RunLabel}

/-- A step that emits nothing starts no `on_sig_child`. -/
theorem weight_of_quiet (h : t'.raised = t.raised) :
    weight (onSignalRaised (newlyRaised t t')) = 0 := by
  rw [newlyRaised, h, List.drop_length]
  rfl

theorem weight_le_one : weight (onSignalRaised (newlyRaised t t')) ≤ 1 := by
  unfold onSignalRaised
  split <;> decide

/-- An iteration of the record loop is done with one record. -/
theorem records_left {d : Dispatch} {ls ls' : LoopState} (hread : ¬ d.answer.Failed)
    (hl : loopStep trap d ls = some ls') :
    d.answer.count - ls'.i + 1 ≤ d.answer.count - ls.i := by
  obtain ⟨hlt, rfl⟩ := loopStep_eq_some.mp hl
  cases ha : d.answer with
  | failed e => exact absurd ⟨e, ha⟩ hread
  | records signos fits =>
    have hfew : signos.length ≤ 5 := fits.2
    rw [ha, loopBound_records fits] at hlt
    have hnext : (ls.i + 1) % 2 ^ 32 = ls.i + 1 := Nat.mod_eq_of_lt (by omega)
    simp only [ReadAnswer.count, hnext]
    omega

theorem TrapAnswer.unreaped_eq (h : TrapAnswer k l k') : unreaped k' = unreaped k := by
  cases h <;> rfl

/-- A smooth step of the loop of `run` brings its next `poll` nearer. What it starts is one
`waitpid` away from its end, unless there are children to be reaped. -/
theorem RunStep.todo (h : RunStep trap t l t') (hk : TrapAnswer k l k')
    (hcourse : t.pc.OnCourse) (hsmooth : l.Smooth) :
    weight (onSignalRaised (newlyRaised t t')) + t'.pc.todo + pendingRound k' + 1 ≤
      t.pc.todo + pendingRound k + if bringsNothing (.trap l) then 14 else 0 := by
  cases h with
  | interrupted | timeout =>
    cases hk
    simp only [weight_of_quiet, bringsNothing, if_true]
    omega
  | pollFailed _ he => exact absurd hsmooth he
  | signalReady hpc | signalIdle hpc =>
    cases hk
    simp only [weight_of_quiet, hpc, RunPc.todo, bringsNothing, Bool.not_true, Bool.not_false,
      if_true]
    omega
  | @read event a hpc =>
    simp only [weight_of_quiet, hpc]
    cases hk with
    | @dequeued signos fits hmem hpending =>
      -- the round that was pending pays for the iterations over the records
      have hfew : signos.length ≤ 5 := fits.2
      simp only [RunPc.todo, ReadAnswer.count, LoopState.start, pendingRound, hpending, if_true,
        Bool.false_eq_true, if_false]
      omega
    | @others signos fits hmem =>
      have hfew : signos.length ≤ 5 := fits.2
      simp only [RunPc.todo, ReadAnswer.count, LoopState.start, bringsNothing,
        decide_eq_true hmem, if_true]
      omega
    | readError => exact hsmooth.elim
  | @iterate d ls ls' event hpc hl =>
    cases hk
    have hstarts := @weight_le_one t
      { t with pc := .dispatch d ls' event, raised := t.raised ++ iterEmits trap d ls.i }
    have hless : d.answer.count - ls'.i + 1 ≤ d.answer.count - ls.i :=
      records_left (hpc ▸ hcourse : (RunPc.dispatch d ls event).OnCourse).2 hl
    rw [hpc]
    simp only [RunPc.todo]
    omega
  | loopDone hpc =>
    cases hk
    simp only [weight_of_quiet, hpc, RunPc.todo]
    omega
  | stopped hpc =>
    -- nobody calls `stop`
    rw [hpc] at hcourse
    cases hcourse
  | again hpc =>
    cases hk
    simp only [weight_of_quiet, hpc, RunPc.todo]
    omega

/-- What it costs if `poll` has seen another signal of the trap than `SIGCHLD`. -/
def inVain (t : RunState) (k : Kernel) : Nat :=
  match t.pc, k.sigchld with
  | .read _, false => 14
  | _, _ => 0

/-- A loop on course goes on, except when its `poll` has nothing to report. -/
theorem trap_can_step (hcourse : t.pc.OnCourse) (hbusy : t.pc = .poll → k.sigchld = true) :
    ∃ l k' t', RunStep trap t l t' ∧ TrapAnswer k l k' ∧ l.Smooth ∧
      (if bringsNothing (.trap l) then 14 else 0) + inVain t' k' ≤ inVain t k := by
  cases hpc : t.pc with
  | poll =>
    have hpending := hbusy hpc
    refine ⟨.poll (.ready true false), k, _, .signalReady hpc, .ready fun _ => rfl, rfl, ?_⟩
    simp [inVain, hpc, hpending, bringsNothing]
  | read event =>
    cases hpending : k.sigchld with
    | true =>
      refine ⟨.read (.records [sigchldNo] chldRecord_fits), _, _, .read hpc,
        .dequeued (List.mem_singleton_self _) hpending, trivial, ?_⟩
      simp [inVain, hpc, hpending, bringsNothing]
    | false =>
      refine ⟨.read (.records [sigchldNo + 1] chldRecord_fits), k, _, .read hpc,
        .others (by decide), trivial, ?_⟩
      simp [inVain, hpc, hpending, bringsNothing]
  | dispatch d ls event =>
    cases hl : loopStep trap d ls with
    | none =>
      refine ⟨.tau, k, _, .loopDone hpc hl, .tau, trivial, ?_⟩
      simp [inVain, hpc, bringsNothing]
    | some ls' =>
      refine ⟨.tau, k, _, .iterate hpc hl, .tau, trivial, ?_⟩
      simp [inVain, hpc, bringsNothing]
  | checkEvent event =>
    rw [hpc] at hcourse
    cases hcourse
    refine ⟨.tau, k, _, .again hpc, .tau, trivial, ?_⟩
    simp [inVain, hpc, bringsNothing]
  | left =>
    rw [hpc] at hcourse
    exact hcourse.elim

end

/-! ## The parent left to itself -/

def ParentLabel.Smooth : ParentLabel → Prop
  | .threads _ => True
  | .trap l => l.Smooth

/-- The steps of the parent's own threads, while `run` gets smooth answers: nobody is forked,
dies or is signalled, and nobody calls `add`. -/
def Own (_ : Parent) : ParentLabel → Prop
  | .threads (.add _ _) => True
  | .threads (.onSigChild _ _) => True
  | .threads _ => False
  | .trap l => l.Smooth

namespace Parent

/-- The trap thread is in its `poll` with nothing to wake it up, and no `add` is in progress. -/
def AtRest (p : Parent) : Prop :=
  p.Idle ∧ p.threads.kernel.sigchld = false ∧ ∀ i, p.threads.adding i = none

/-- The parent at work, with only the threads `T` inside `add`. -/
structure Working (trap : SignalTrap) (T : Finset Nat) (p : Parent) : Prop where
  inv : p.Inv
  manned : p.threads.Manned
  follows : FollowsLoop trap p.trap
  threads : ∀ i, i ∉ T → p.threads.adding i = none

variable {trap : SignalTrap} {p p' : Parent} {l : ParentLabel} {ls : List ParentLabel}
  {T : Finset Nat}

theorem manned_step (h : p.threads.Manned) (hstep : ParentStep trap p l p') :
    p'.threads.Manned := by
  cases hstep with
  | threads hthreads => exact h.step hthreads
  | trap hidle =>
    refine ⟨h.adding, fun j hj => exists_update_at (h.handling j hj) fun b hb => ?_⟩
    cases hidle.symm.trans hb

theorem follows_step (h : FollowsLoop trap p.trap) (hstep : ParentStep trap p l p') :
    FollowsLoop trap p'.trap := by
  cases hstep with
  | threads => exact h
  | trap _ hrun => exact followsLoop_step hrun h

theorem course_step (h : FollowsLoop trap p.trap) (hstep : ParentStep trap p l p') :
    p'.trap.pc.OnCourse ↔ p.trap.pc.OnCourse ∧ l.Smooth := by
  cases hstep with
  | threads => exact (and_iff_left trivial).symm
  | trap _ hrun => exact hrun.onCourse_iff h

/-- A thread comes in by a call, or it is inside. -/
theorem adding_step (hstep : ParentStep trap p l p') :
    (∃ i, ∀ j, j ≠ i → p.threads.adding j = none → p'.threads.adding j = none) ∧
      (Own p l → ∀ j, p.threads.adding j = none → p'.threads.adding j = none) := by
  cases hstep with
  | trap => exact ⟨⟨0, fun _ _ hj => hj⟩, fun _ _ hj => hj⟩
  | threads hthreads =>
    cases hthreads with
    | kernel | callOnSigChild | onSigChild | waitFor =>
      exact ⟨⟨0, fun _ _ hj => hj⟩, fun _ _ hj => hj⟩
    | @callAdd i =>
      exact ⟨⟨i, fun j hji hj => (Function.update_of_ne hji ..).trans hj⟩, False.elim⟩
    | @add i pc al k' o' pc' hpc =>
      refine ⟨⟨i, fun j hji hj => (Function.update_of_ne hji ..).trans hj⟩, fun _ j hj => ?_⟩
      have hji : j ≠ i := by
        rintro rfl
        cases hj.symm.trans hpc
      exact (Function.update_of_ne hji ..).trans hj

theorem Working.step {T' : Finset Nat} (htrap : trap.has Signal.sigChld = true)
    (h : Working trap T p) (hstep : ParentStep trap p l p') (hl : Undisturbed p l)
    (hT' : ∀ i, i ∉ T' → p'.threads.adding i = none) : Working trap T' p' where
  inv := h.inv.step htrap hstep hl
  manned := manned_step h.manned hstep
  follows := follows_step h.follows hstep
  threads := hT'

/-- Whether the loop of `run` is on course can be told from the labels of a run. -/
theorem working_run {o : Observer} (ho : Observer.ctor trap = .ok o) {k : Kernel} (hk : k.Fresh)
    {info : Nat → Nat} (h : ((parentSystem trap).restrict Undisturbed).Run (.start k o info) ls p) :
    (∃ T, Working trap T p) ∧ (p.trap.pc.OnCourse ↔ ∀ l ∈ ls, l.Smooth) := by
  obtain ⟨htrap, rfl⟩ := Observer.ctor_eq_ok ho
  refine h.history (P := fun ls q => (∃ T, Working trap T q) ∧
    (q.trap.pc.OnCourse ↔ ∀ l ∈ ls, l.Smooth)) ?_ ?_
  · rintro ls q l q' ⟨hstep, hl⟩ ⟨⟨T, hT⟩, hcourse⟩
    obtain ⟨⟨i, hi⟩, -⟩ := adding_step hstep
    refine ⟨⟨insert i T, hT.step htrap hstep hl fun j hj => ?_⟩, ?_⟩
    · rw [Finset.mem_insert, not_or] at hj
      exact hi j hj.1 (hT.threads j hj.2)
    · rw [course_step hT.follows hstep, hcourse, List.forall_mem_append,
        List.forall_mem_singleton]
  · exact ⟨⟨∅, Inv.start ho hk info, ⟨nofun, nofun⟩, nofun, fun _ _ => rfl⟩,
      nofun, fun _ => trivial⟩

theorem undisturbed_of_own (h : Own p l) : Undisturbed p l := by
  cases l with
  | trap => trivial
  | threads ol =>
    cases ol with
    | add | onSigChild => trivial
    | kernel | callAdd | callOnSigChild | waitFor => exact h.elim

theorem smooth_of_own (h : Own p l) : l.Smooth := by
  cases l with
  | trap => exact h
  | threads => trivial

/-- The steps of its own keep it at work and on course. -/
theorem Working.own_step (htrap : trap.has Signal.sigChld = true)
    (h : Working trap T p ∧ p.trap.pc.OnCourse) (hstep : ParentStep trap p l p')
    (hown : Own p l) : Working trap T p' ∧ p'.trap.pc.OnCourse := by
  refine ⟨h.1.step htrap hstep (undisturbed_of_own hown) fun i hi => ?_,
    (course_step h.1.follows hstep).mpr ⟨h.2, smooth_of_own hown⟩⟩
  exact (adding_step hstep).2 hown i (h.1.threads i hi)

/-- Every step of the parent's own uses up what is left to do, or has brought nothing. -/
theorem Working.potential_step (h : Working trap T p) (hcourse : p.trap.pc.OnCourse)
    (hstep : ParentStep trap p l p') (hown : Own p l) :
    p'.potential T + 1 ≤ p.potential T + if bringsNothing l then 14 else 0 := by
  cases hstep with
  | trap hidle hrun hk =>
    -- the loop runs only while no `on_sig_child` is in progress
    have htodo := hrun.todo hk hcourse hown
    have hnone : weight (none : Option OscPc) = 0 := rfl
    simp only [potential, moveTrap, ObserverState.moveHandling, Function.update_self, hidle, hnone,
      hk.unreaped_eq]
    omega
  | threads hthreads =>
    cases hthreads with
    | kernel | callAdd | callOnSigChild | waitFor => exact hown.elim
    | @add i pc al k' o' pc' hpc hadd =>
      have hi : i ∈ T := by
        by_contra hnot
        cases (h.threads i hnot).symm.trans hpc
      have heffort := sum_effort_update hi (hpc ▸ hadd.effort)
      have hle := hadd.unreaped_le h.inv.sound.wf
      have hround : pendingRound k' = pendingRound p.threads.kernel := by
        rw [pendingRound, hadd.sigchld, pendingRound]
      simp only [potential, ObserverState.moveAdding, hround]
      omega
    | @onSigChild i pc ol k' o' pc' hpc hosc =>
      obtain rfl := h.inv.alone.thread_eq hpc
      have hweight := hosc.weight
      have hle := hosc.unreaped_le h.inv.sound.wf
      have hround : pendingRound k' = pendingRound p.threads.kernel := by
        rw [pendingRound, hosc.sigchld, pendingRound]
      have hsame : bringsNothing (.threads (.onSigChild trapThread ol)) = isStray (.own ol) := rfl
      simp only [potential, ObserverState.moveHandling, Function.update_self, hpc, hround]
      rw [hsame]
      by_cases hstray : isStray (.own ol) = true
      · rw [if_pos hstray] at hweight ⊢
        omega
      · rw [if_neg hstray] at hweight ⊢
        omega

/-! ## The way to rest -/

/-- How far the parent is from its rest. -/
def toRest (T : Finset Nat) (p : Parent) : Nat :=
  p.potential T + inVain p.trap p.threads.kernel

theorem Working.add_step (h : Working trap T p) (hcourse : p.trap.pc.OnCourse) {i : Nat}
    {pc : AddPc} (hpc : p.threads.adding i = some pc)
    (hfree : pc.critical = true ∨ p.threads.observer.guard = none) :
    ∃ l p', ParentStep trap p l p' ∧ Own p l ∧ p'.toRest T + 1 ≤ p.toRest T := by
  obtain ⟨al, k', o', pc', hadd⟩ :=
    AddStep.can_step i p.threads.kernel p.threads.observer pc hfree
  have hstep : ParentStep trap p (.threads (.add i al)) _ := .threads (.add hpc hadd)
  refine ⟨_, _, hstep, trivial, ?_⟩
  have hless := h.potential_step hcourse hstep trivial
  have hsame : inVain p.trap k' = inVain p.trap p.threads.kernel := by
    rw [inVain, hadd.sigchld, inVain]
  simp only [toRest, ObserverState.moveAdding, hsame, bringsNothing, Bool.false_eq_true, if_false]
    at hless ⊢
  omega

theorem Working.osc_step (h : Working trap T p) (hcourse : p.trap.pc.OnCourse) {i : Nat}
    {pc : OscPc} (hpc : p.threads.handling i = some pc)
    (hfree : pc.critical = true ∨ p.threads.observer.guard = none) :
    ∃ l p', ParentStep trap p l p' ∧ Own p l ∧ p'.toRest T + 1 ≤ p.toRest T := by
  obtain ⟨ol, k', o', pc', hosc, hstray⟩ :=
    OscStep.can_step i p.threads.kernel p.threads.observer pc hfree
  have hstep : ParentStep trap p (.threads (.onSigChild i ol)) _ := .threads (.onSigChild hpc hosc)
  refine ⟨_, _, hstep, trivial, ?_⟩
  have hless := h.potential_step hcourse hstep trivial
  have hsame : inVain p.trap k' = inVain p.trap p.threads.kernel := by
    rw [inVain, hosc.sigchld, inVain]
  simp only [toRest, ObserverState.moveHandling, hsame, bringsNothing, hstray, Bool.false_eq_true,
    if_false] at hless ⊢
  omega

theorem Working.trap_step (h : Working trap T p) (hcourse : p.trap.pc.OnCourse)
    (hosc : p.threads.handling trapThread = none)
    (hbusy : p.trap.pc = .poll → p.threads.kernel.sigchld = true) :
    ∃ l p', ParentStep trap p l p' ∧ Own p l ∧ p'.toRest T + 1 ≤ p.toRest T := by
  obtain ⟨rl, k', t', hrun, hk, hsmooth, hvain⟩ := trap_can_step hcourse hbusy
  have hstep : ParentStep trap p (.trap rl) _ := .trap hosc hrun hk
  refine ⟨_, _, hstep, hsmooth, ?_⟩
  have hless := h.potential_step hcourse hstep hsmooth
  show potential T (p.moveTrap k' t') + inVain t' k' + 1 ≤ p.toRest T
  rw [toRest]
  omega

/-- A parent that is not at rest can come nearer to it: the thread that has the mutex goes on,
or one that waits for it, or `run`. -/
theorem Working.can_step (h : Working trap T p) (hcourse : p.trap.pc.OnCourse)
    (hbusy : ¬ p.AtRest) :
    ∃ l p', ParentStep trap p l p' ∧ Own p l ∧ p'.toRest T + 1 ≤ p.toRest T := by
  cases hguard : p.threads.observer.guard with
  | some g =>
    cases g with
    | add i =>
      obtain ⟨pc, hpc, hcrit⟩ := h.manned.adding i hguard
      exact h.add_step hcourse hpc (.inl hcrit)
    | onSigChild i =>
      obtain ⟨pc, hpc, hcrit⟩ := h.manned.handling i hguard
      exact h.osc_step hcourse hpc (.inl hcrit)
  | none =>
    by_cases hadd : ∃ i pc, p.threads.adding i = some pc
    · obtain ⟨i, pc, hpc⟩ := hadd
      exact h.add_step hcourse hpc (.inr hguard)
    · cases hosc : p.threads.handling trapThread with
      | some pc => exact h.osc_step hcourse hosc (.inr hguard)
      | none =>
        refine h.trap_step hcourse hosc fun hpoll => ?_
        have hnone : ∀ i, p.threads.adding i = none := fun i =>
          Option.eq_none_iff_forall_ne_some.mpr fun pc hpc => hadd ⟨i, pc, hpc⟩
        rw [← Bool.not_eq_false]
        exact fun hpending => hbusy ⟨⟨hpoll, hosc⟩, hpending, hnone⟩

theorem Working.can_rest (htrap : trap.has Signal.sigChld = true) {n : Nat}
    (hn : p.toRest T = n) (h : Working trap T p ∧ p.trap.pc.OnCourse) :
    ∃ ls q, ((parentSystem trap).restrict Own).Run p ls q ∧ q.AtRest := by
  induction n using Nat.strong_induction_on generalizing p with
  | _ n ih =>
    by_cases hrest : p.AtRest
    · exact ⟨[], p, .nil p, hrest⟩
    · obtain ⟨l, p', hstep, hown, hless⟩ := h.1.can_step h.2 hrest
      obtain ⟨ls, q, hrun, hq⟩ := ih (p'.toRest T) (by omega) rfl (own_step htrap h hstep hown)
      exact ⟨l :: ls, q, .cons ⟨hstep, hown⟩ hrun, hq⟩

/-- Nobody is left out of a parent at rest. -/
theorem announced_of_atRest (h : p.Inv) (hrest : p.AtRest) {pid serial : Nat}
    (hadded : .forked pid serial ∈ p.threads.observer.inserted)
    (hdead : p.threads.kernel.Dead pid serial) :
    .forked pid serial ∈ p.threads.observer.died := by
  obtain ⟨hidle, hpending, hadd⟩ := hrest
  rcases h.logged pid serial hadded with hmap | hdied
  · exact absurd hdead (h.alive_of_quiet hidle hpending hadd hmap)
  · exact hdied

end Parent

/-- The parent, left to itself, comes to rest and has announced every death. -/
structure ComesToRest (trap : SignalTrap) (p : Parent) : Prop where
  /-- in whatever order the threads take their steps, if system calls return for nothing only
  finitely often -/
  ends : ∀ e : ((parentSystem trap).restrict Own).Execution Parent.AtRest p,
    e.Finitely bringsNothing → ∃ n, Parent.AtRest (e.state n)
  /-- and until then there is always a way on -/
  goesOn : ∀ ls q, ((parentSystem trap).restrict Own).Run p ls q →
    ∃ ls' r, ((parentSystem trap).restrict Own).Run q ls' r ∧ r.AtRest
  announced : ∀ ls q, ((parentSystem trap).restrict Own).Run p ls q → q.AtRest →
    ∀ pid serial, .forked pid serial ∈ q.threads.observer.inserted →
      q.threads.kernel.Dead pid serial → .forked pid serial ∈ q.threads.observer.died

/-- **Every death is announced**: after every run of an undisturbed parent in which nobody has
stopped `run`, its `poll` has not failed and no read of the signalfd has, the parent comes to
rest when it is left to itself, and every child that was ever added and has ended has then been
announced. After any other run it never comes to rest in this call of `run`. -/
theorem deaths_come_out (trap : SignalTrap) (o : Observer) (ho : Observer.ctor trap = .ok o)
    (k : Kernel) (hk : k.Fresh) (info : Nat → Nat) (ls : List ParentLabel) (p : Parent)
    (h : ((parentSystem trap).restrict Undisturbed).Run (.start k o info) ls p) :
    ((∀ l ∈ ls, l.Smooth) → ComesToRest trap p) ∧
      (¬ (∀ l ∈ ls, l.Smooth) →
        ∀ ls' q, ((parentSystem trap).restrict Undisturbed).Run p ls' q → ¬ q.AtRest) := by
  have htrap := (Observer.ctor_eq_ok ho).1
  obtain ⟨⟨T, hT⟩, hcourse⟩ := Parent.working_run ho hk h
  refine ⟨fun hsmooth => ?_, fun hrough ls' q hrun hrest => ?_⟩
  · have hp : Parent.Working trap T p ∧ p.trap.pc.OnCourse := ⟨hT, hcourse.mpr hsmooth⟩
    have hrun : ∀ {ls q}, ((parentSystem trap).restrict Own).Run p ls q →
        Parent.Working trap T q ∧ q.trap.pc.OnCourse := by
      intro ls q hrun
      refine hrun.invariant (P := fun x => Parent.Working trap T x ∧ x.trap.pc.OnCourse)
        (fun x l y hstep hx => ?_) hp
      exact Parent.Working.own_step htrap hx hstep.1 hstep.2
    refine ⟨fun e hfinitely => ?_, fun ls q hq => Parent.Working.can_rest htrap rfl (hrun hq), ?_⟩
    · refine e.ends_of_potential (I := fun x => Parent.Working trap T x ∧ x.trap.pc.OnCourse)
        (c := 14) (Parent.potential T) hp (fun x l y hstep hx => ?_) hfinitely
      exact ⟨Parent.Working.own_step htrap hx hstep.1 hstep.2,
        hx.1.potential_step hx.2 hstep.1 hstep.2⟩
    · intro ls q hq hrest pid serial hadded hdead
      exact Parent.announced_of_atRest (hrun hq).1.inv hrest hadded hdead
  · -- at rest the loop is on course, so no label of the whole was rough
    have hq := (Parent.working_run ho hk (h.append hrun)).2
    have hpoll : q.trap.pc.OnCourse := by
      rw [hrest.1.1]
      trivial
    exact hrough fun l hl => hq.mp hpoll l (List.mem_append_left _ hl)

theorem deaths_come_out_diesDuringAdd :
    ∃ p, ((parentSystem chldTrap).restrict Undisturbed).Run
        (.start .initOnly .initial fun _ => 0) diesDuringAdd p ∧
      p.threads.observer.children 7 = some (.forked 7 0) ∧ p.threads.kernel.Zombie 7 0 ∧
      ¬ p.AtRest ∧ ComesToRest chldTrap p := by
  obtain ⟨p, hrun, hmap, hz⟩ := diesDuringAdd_run
  have hsmooth : ∀ l ∈ diesDuringAdd, l.Smooth := by
    simp [diesDuringAdd, ParentLabel.Smooth]
  refine ⟨p, hrun, hmap, hz, fun hrest => ?_, (deaths_come_out chldTrap .initial chldTrap_observed
    .initOnly Kernel.initOnly_fresh _ diesDuringAdd p hrun).1 hsmooth⟩
  -- a zombie in the map is not left alone
  have hinv := Parent.Inv.run chldTrap_observed Kernel.initOnly_fresh hrun
  exact hinv.alive_of_quiet hrest.1 hrest.2.1 hrest.2.2 hmap (.inl hz)

end ProcessCpp.Core
