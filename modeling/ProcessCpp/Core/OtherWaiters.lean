import ProcessCpp.Core.DeathAccount
import ProcessCpp.Core.ObserverRun

/-!
# `wait_for` on a child that is observed (child_process.cpp:65–139, 345–380)

A status of a child is given out once. `add` and `on_sig_child` ask for it, and so does
`ChildProcess::wait_for`, which knows nothing of the observer: if it is the one that gets the
end of an observed child, the observer waits for what will not come. Nothing takes the entry
out of `children` then, `has` goes on to say that the child is watched, and `child_died` is
never emitted for it.

- `InHand`: a thread inside `on_sig_child` has got the end of this pid;
- `Waited`: a call of `wait_for` has got it;
- `silenced_iff_waited`: for an observed child that has been reaped, outside of its own `add`,
  one of the two has happened, and not both; and after the second it stays in the map without
  a word, whatever happens.
-/

namespace ProcessCpp.Core

open ProcessCpp.Base ProcessCpp.Posix

/-- A pid is not given out by two forks. -/
def NoReuse (s : ObserverState) : ObserverLabel → Prop
  | .kernel (.fork pid) => pid ∉ s.kernel.forks
  | _ => True

/-- A thread inside `on_sig_child` has reaped this pid and not erased it yet. -/
def ObserverState.InHand (s : ObserverState) (pid : Nat) : Prop :=
  ∃ i pc, s.handling i = some pc ∧ pc.holding = some pid

/-- A call of `wait_for` has reported the end of this pid. -/
def Waited (ls : List ObserverLabel) (pid : Nat) : Prop :=
  ∃ c flags t, .waitFor c flags (.changed pid (.terminated t)) ∈ ls

/-! ## Who gets the end of a child -/

/-- The step reaps this pid. -/
def Reaps (k : Kernel) (pid : Nat) (k' : Kernel) : Prop :=
  ∃ c, k.slots pid = .child c ∧ k' = k.reap pid c

section

variable {s s' : ObserverState} {l : ObserverLabel} {ls : List ObserverLabel} {pid serial : Nat}

/-- A pid that `on_sig_child` has in hand after a step it had before, or it has just reaped
it. -/
theorem OscStep.holding_new {me : Nat} {k k' : Kernel} {o o' : Observer} {pc b : OscPc}
    {ol : OscLabel} (h : OscStep me k o pc ol k' o' (some b)) (hb : b.holding = some pid) :
    pc.holding = some pid ∨ Reaps k pid k' := by
  cases h with
  | stray | unlock | skip | notFound | erase => cases hb
  | lock | found | emit => exact .inl hb
  | reaped hw =>
    cases hb
    cases hw with
    | reap hslot => exact .inr ⟨_, hslot, rfl⟩
    | stopped hopt => cases hopt
    | continued hopt => cases hopt

theorem ObserverStep.inHand_cases (h : ObserverStep s l s') (hin : s'.InHand pid) :
    s.InHand pid ∨ (Reaps s.kernel pid s'.kernel ∧ ∀ c flags a, l ≠ .waitFor c flags a) := by
  obtain ⟨i, pc, hi, hpc⟩ := hin
  cases h with
  | kernel | callAdd | add | waitFor => exact .inl ⟨i, pc, hi, hpc⟩
  | callOnSigChild =>
    rcases update_cases hi with ⟨-, ⟨⟩⟩ | ⟨-, hold⟩
    · cases hpc
    · exact .inl ⟨i, pc, hold, hpc⟩
  | onSigChild hj hosc =>
    rcases update_cases hi with ⟨rfl, rfl⟩ | ⟨-, hold⟩
    · rcases hosc.holding_new hpc with hheld | hreaps
      · exact .inl ⟨i, _, hj, hheld⟩
      · exact .inr ⟨hreaps, nofun⟩
    · exact .inl ⟨i, pc, hold, hpc⟩

theorem ObserverStep.waited_cases (h : ObserverStep s l s') (hw : Waited (ls ++ [l]) pid) :
    Waited ls pid ∨ (Reaps s.kernel pid s'.kernel ∧ ∃ c flags a, l = .waitFor c flags a) := by
  obtain ⟨c, flags, t, hmem⟩ := hw
  rcases List.mem_append.mp hmem with hold | hnew
  · exact .inl ⟨c, flags, t, hold⟩
  · rw [List.mem_singleton] at hnew
    subst hnew
    cases h with
    | waitFor hmade hw =>
      cases hw with
      | reap hslot => exact .inr ⟨⟨_, hslot, rfl⟩, c, flags, _, rfl⟩

theorem Waited.append (h : Waited ls pid) : Waited (ls ++ [l]) pid := by
  obtain ⟨c, flags, t, hmem⟩ := h
  exact ⟨c, flags, t, List.mem_append_left _ hmem⟩

/-- A child is reaped once. -/
theorem Reaps.fresh {k k' : Kernel} (h : Reaps k pid k') (hwf : k.WF) (hnodup : k.forks.Nodup) :
    (∀ serial, k.forks[serial]? = some pid → serial ∉ k.reaped) ∧
      ∃ serial, k'.forks[serial]? = some pid ∧ serial ∈ k'.reaped := by
  obtain ⟨c, hslot, rfl⟩ := h
  refine ⟨fun serial hfork => ?_, c.serial, (hwf.slot pid c hslot).1, List.mem_cons_self⟩
  rw [← hwf.serial_eq hnodup hfork hslot]
  exact (hwf.slot pid c hslot).2

/-! ## Who takes an entry out of the map -/

/-- A child that is in the hands of an `add` was there before, or was not in the map. -/
theorem AddStep.window_new {me : Nat} {k k' : Kernel} {o o' : Observer} {pc b : AddPc}
    {al : AddLabel} (h : AddStep me k o pc al k' o' (some b)) {c : ChildProcess}
    (hb : b.window = some c) : pc.window = some c ∨ o.children c.pid = none := by
  cases h with
  | lock | present | alive | erase => cases hb
  | insert hnew =>
    cases hb
    exact .inr hnew
  | gone | emit => exact .inl hb

theorem ObserverStep.insideAdd_cases {c : ChildProcess} (h : ObserverStep s l s')
    (hin : s'.InsideAdd c) : s.InsideAdd c ∨ s.observer.children c.pid = none := by
  obtain ⟨i, pc, hi, hpc⟩ := hin
  cases h with
  | kernel | callOnSigChild | onSigChild | waitFor => exact .inl ⟨i, pc, hi, hpc⟩
  | callAdd =>
    rcases update_cases hi with ⟨-, ⟨⟩⟩ | ⟨-, hold⟩
    · cases hpc
    · exact .inl ⟨i, pc, hold, hpc⟩
  | add hj hadd =>
    rcases update_cases hi with ⟨rfl, rfl⟩ | ⟨-, hold⟩
    · exact (hadd.window_new hpc).imp_left fun hwin => ⟨i, _, hj, hwin⟩
    · exact .inl ⟨i, pc, hold, hpc⟩

/-- An entry stays, unless a thread has its pid in hand. -/
theorem ObserverStep.children_kept {c : ChildProcess} (h : ObserverStep s l s')
    (hc : s.observer.children pid = some c) :
    s'.observer.children pid = some c ∨ s.InHand pid ∨ ∃ d, s.InsideAdd d ∧ d.pid = pid := by
  cases h with
  | kernel | callAdd | callOnSigChild | waitFor => exact .inl hc
  | @add i pc al k' o' pc' hpc hadd =>
    rcases hadd.children_kept hc with hkept | ⟨d, rfl, hd⟩
    · exact .inl hkept
    · exact .inr (.inr ⟨d, ⟨i, _, hpc, rfl⟩, hd⟩)
  | @onSigChild i pc ol k' o' pc' hpc hosc =>
    rcases hosc.children_kept hc with hkept | ⟨d, rfl⟩
    · exact .inl hkept
    · exact .inr (.inl ⟨i, _, hpc, rfl⟩)

/-- Nor is anybody else announced. -/
theorem ObserverStep.announcements_cases (h : ObserverStep s l s') (hs : s.Sound) (pid : Nat) :
    s'.observer.announcements pid = s.observer.announcements pid ∨
      s.InHand pid ∨ ∃ d, s.InsideAdd d ∧ d.pid = pid := by
  have hemit : ∀ {c : ChildProcess}, c.pid ≠ pid →
      (s.observer.emit c).announcements pid = s.observer.announcements pid := by
    intro c hc
    show (s.observer.died ++ [c]).countP _ = _
    rw [List.countP_append, List.countP_singleton, if_neg fun hd => hc (of_decide_eq_true hd)]
    rfl
  cases h with
  | kernel | waitFor | callAdd | callOnSigChild => exact .inl rfl
  | @add i pc al k' o' pc' hpc hadd =>
    cases hadd with
    | @emit c =>
      by_cases hpid : c.pid = pid
      · exact .inr (.inr ⟨c, ⟨i, _, hpc, rfl⟩, hpid⟩)
      · exact .inl (hemit hpid)
    | _ => exact .inl rfl
  | @onSigChild i pc ol k' o' pc' hpc hosc =>
    cases hosc with
    | @emit q status c =>
      by_cases hpid : c.pid = pid
      · obtain ⟨-, hq, -⟩ := hs.handling i _ hpc
        refine .inr (.inl ⟨i, _, hpc, ?_⟩)
        rw [← hpid, hq]
        rfl
      · exact .inl (hemit hpid)
    | _ => exact .inl rfl

/-! ## Once, and by one of them -/

/-- What the ends that were given out have in common. -/
structure GivenOut (ls : List ObserverLabel) (s : ObserverState) : Prop where
  reaped : ∀ pid, s.InHand pid ∨ Waited ls pid →
    ∃ serial, s.kernel.forks[serial]? = some pid ∧ serial ∈ s.kernel.reaped
  once : ∀ pid, s.InHand pid → ¬ Waited ls pid

theorem GivenOut.step (h : GivenOut ls s) (hs : s.Sound) (hnodup : s.kernel.forks.Nodup)
    (hstep : ObserverStep s l s') : GivenOut (ls ++ [l]) s' := by
  have hkept : ∀ {pid}, s.InHand pid ∨ Waited ls pid →
      ∃ serial, s'.kernel.forks[serial]? = some pid ∧ serial ∈ s'.kernel.reaped := by
    intro pid hin
    obtain ⟨serial, hfork, hr⟩ := h.reaped pid hin
    exact ⟨serial, hstep.forksKept serial pid hfork, hstep.reaped hr⟩
  -- what is reaped now was not given out before
  have hnew : ∀ {pid}, Reaps s.kernel pid s'.kernel → ¬ (s.InHand pid ∨ Waited ls pid) := by
    intro pid hreaps hin
    obtain ⟨serial, hfork, hr⟩ := h.reaped pid hin
    exact (hreaps.fresh hs.wf hnodup).1 serial hfork hr
  constructor
  · rintro pid (hin | hw)
    · rcases hstep.inHand_cases hin with hold | ⟨hreaps, -⟩
      · exact hkept (.inl hold)
      · exact (hreaps.fresh hs.wf hnodup).2
    · rcases hstep.waited_cases hw with hold | ⟨hreaps, -⟩
      · exact hkept (.inr hold)
      · exact (hreaps.fresh hs.wf hnodup).2
  · intro pid hin hw
    rcases hstep.inHand_cases hin with hold | ⟨hreaps, hnot⟩
    · rcases hstep.waited_cases hw with hwold | ⟨hreaps, -⟩
      · exact h.once pid hold hwold
      · exact hnew hreaps (.inl hold)
    · rcases hstep.waited_cases hw with hwold | ⟨-, c, flags, a, hl⟩
      · exact hnew hreaps (.inr hwold)
      · exact hnot c flags a hl

/-! ## An observed child that has been reaped -/

/-- Somebody has the end of every observed child that has been reaped. -/
def Covered (ls : List ObserverLabel) (s : ObserverState) : Prop :=
  ∀ pid serial, s.observer.children pid = some (.forked pid serial) → serial ∈ s.kernel.reaped →
    s.InHand pid ∨ s.InsideAdd (.forked pid serial) ∨ Waited ls pid

theorem Covered.addStep (h : Covered ls s) (hs : s.Sound) (hnodup : s.kernel.forks.Nodup)
    {i : Nat} {pc : AddPc} {al : AddLabel} {k' : Kernel} {o' : Observer} {pc' : Option AddPc}
    (hpc : s.adding i = some pc) (hstep : AddStep i s.kernel s.observer pc al k' o' pc') :
    Covered (ls ++ [l]) (s.moveAdding i k' o' pc') := by
  intro pid serial hmap hr
  rcases hstep.children hmap with hold | ⟨-, -, rfl⟩
  · have hmade : s.kernel.forks[serial]? = some pid := (hs.mapped _ _ hold).2
    rcases hstep.reaped_cases hr with hr' | ⟨c, child, rfl, rfl, hslot, rfl⟩
    · rcases h pid serial hold hr' with hin | hinside | hw
      · exact .inl hin
      · refine .inr (.inl (hinside.addStep hpc hstep hmap fun _ _ hw => ?_))
        exact hw.not_dead hs.wf hnodup hmade (.inr hr)
      · exact .inr (.inr hw.append)
    · -- the `add` has reaped the child itself
      have hpid : c.pid = pid :=
        Option.some.inj ((hs.wf.slot _ _ hslot).1.symm.trans hmade)
      have hc := ChildProcess.Made.eq_forked hs.wf hnodup hmade (hs.adding i _ hpc) hpid
      obtain rfl : c = .forked pid child.serial := hc
      exact .inr (.inl ⟨i, _, Function.update_self .., rfl⟩)
  · exact .inr (.inl ⟨i, _, Function.update_self .., rfl⟩)

theorem Covered.oscStep (h : Covered ls s) (hs : s.Sound) {i : Nat} {pc : OscPc} {ol : OscLabel}
    {k' : Kernel} {o' : Observer} {pc' : Option OscPc} (hpc : s.handling i = some pc)
    (hstep : OscStep i s.kernel s.observer pc ol k' o' pc') :
    Covered (ls ++ [l]) (s.moveHandling i k' o' pc') := by
  intro pid serial hmap hr
  have hold := hstep.children hmap
  rcases hstep.reaped_cases hr with hr' | ⟨q, status, child, rfl, hslot, rfl⟩
  · rcases h pid serial hold hr' with hin | hinside | hw
    · refine .inl (exists_update_of_some hin hpc fun hholding => ?_)
      rcases hstep.holding_cases (hs.handling _ _ hpc) hholding with hkept | hnone
      · exact hkept
      · cases hnone.symm.trans hmap
    · exact .inr (.inl hinside)
    · exact .inr (.inr hw.append)
  · have hpid : q = pid :=
      Option.some.inj ((hs.wf.slot _ _ hslot).1.symm.trans (hs.mapped _ _ hold).2)
    subst hpid
    exact .inl ⟨i, _, Function.update_self .., rfl⟩

theorem Covered.step (h : Covered ls s) (hs : s.Sound) (hnodup : s.kernel.forks.Nodup)
    (hstep : ObserverStep s l s') : Covered (ls ++ [l]) s' := by
  cases hstep with
  | kernel hk =>
    intro pid serial hmap hr
    have hr' : serial ∈ s.kernel.reaped := hk.reaped ▸ hr
    exact (h pid serial hmap hr').imp_right (.imp_right Waited.append)
  | callAdd hidle =>
    intro pid serial hmap hr
    refine (h pid serial hmap hr).imp_right (.imp (fun hinside => ?_) Waited.append)
    exact exists_update_of_none hinside hidle
  | add hpc hadd => exact h.addStep hs hnodup hpc hadd
  | callOnSigChild hidle =>
    intro pid serial hmap hr
    refine (h pid serial hmap hr).imp (fun hin => ?_) (.imp_right Waited.append)
    exact exists_update_of_none hin hidle
  | onSigChild hpc hosc => exact h.oscStep hs hpc hosc
  | @waitFor c flags a k' hmade hw =>
    intro pid serial hmap hr
    have hmade' : s.kernel.forks[serial]? = some pid := (hs.mapped _ _ hmap).2
    rcases hw.cases_kernel with rfl | ⟨q, child, t, hslot, -, -, rfl, rfl⟩
    · exact (h pid serial hmap hr).imp_right (.imp_right Waited.append)
    · rcases List.mem_cons.mp hr with rfl | hr
      · have hpid : q = pid := Option.some.inj ((hs.wf.slot _ _ hslot).1.symm.trans hmade')
        subst hpid
        exact .inr (.inr ⟨c, flags, t, List.mem_append_right _ (List.mem_singleton_self _)⟩)
      · exact (h pid serial hmap hr).imp_right (.imp_right Waited.append)

/-! ## An entry that nobody will take out -/

/-- The child has been reaped, and no thread is on its way to announcing it. -/
structure Silent (pid serial : Nat) (s : ObserverState) : Prop where
  mapped : s.observer.children pid = some (.forked pid serial)
  reaped : serial ∈ s.kernel.reaped
  hand : ∀ i pc, s.handling i = some pc → pc.holding ≠ some pid
  window : ∀ i pc, s.adding i = some pc → ∀ c, pc.window = some c → c.pid ≠ pid

theorem Silent.step (h : Silent pid serial s) (hs : s.Sound) (hnodup : s.kernel.forks.Nodup)
    (hstep : ObserverStep s l s') : Silent pid serial s' := by
  refine ⟨?_, hstep.reaped h.reaped, fun i pc hi hpc => ?_, fun i pc hi c hc hpid => ?_⟩
  · rcases hstep.children_kept h.mapped with hkept | ⟨i, pc, hi, hpc⟩ | ⟨c, ⟨i, pc, hi, hc⟩, hpid⟩
    · exact hkept
    · exact absurd hpc (h.hand i pc hi)
    · exact absurd hpid (h.window i pc hi c hc)
  · rcases hstep.inHand_cases ⟨i, pc, hi, hpc⟩ with ⟨j, b, hj, hb⟩ | ⟨hreaps, -⟩
    · exact h.hand j b hj hb
    · exact (hreaps.fresh hs.wf hnodup).1 serial (hs.mapped _ _ h.mapped).2 h.reaped
  · rcases hstep.insideAdd_cases ⟨i, pc, hi, hc⟩ with ⟨j, b, hj, hb⟩ | hnone
    · exact h.window j b hj c hb hpid
    · rw [hpid, h.mapped] at hnone
      cases hnone

/-- Nobody is announced under the pid of such an entry. -/
theorem Silent.announcements (h : Silent pid serial s) (hs : s.Sound)
    (hstep : ObserverStep s l s') :
    s'.observer.announcements pid = s.observer.announcements pid := by
  rcases hstep.announcements_cases hs pid with
    hsame | ⟨i, pc, hi, hpc⟩ | ⟨c, ⟨i, pc, hi, hc⟩, hpid⟩
  · exact hsame
  · exact absurd hpc (h.hand i pc hi)
  · exact absurd hpid (h.window i pc hi c hc)

/-! ## Runs -/

/-- What holds of the runs in which no pid is given out twice. -/
structure WaitersOk (ls : List ObserverLabel) (s : ObserverState) : Prop where
  sound : s.Sound
  nodup : s.kernel.forks.Nodup
  covered : Covered ls s
  givenOut : GivenOut ls s

theorem NoReuse.nodup (hl : NoReuse s l) (hnodup : s.kernel.forks.Nodup)
    (hstep : ObserverStep s l s') : s'.kernel.forks.Nodup := by
  cases hstep with
  | kernel hk =>
    refine hk.nodup ?_ hnodup
    rintro q rfl
    exact hl
  | callAdd | callOnSigChild => exact hnodup
  | add _ hadd =>
    rcases hadd.kernel_cases with rfl | ⟨a, hw⟩
    · exact hnodup
    · exact hw.forks_eq ▸ hnodup
  | onSigChild _ hosc =>
    rcases hosc.kernel_cases with rfl | ⟨a, hw⟩
    · exact hnodup
    · exact hw.forks_eq ▸ hnodup
  | waitFor _ hw => exact hw.forks_eq ▸ hnodup

theorem WaitersOk.run {k : Kernel} (hk : k.Fresh)
    (h : (observerSystem.restrict NoReuse).Run (.start k .initial) ls s) : WaitersOk ls s := by
  refine h.history (P := WaitersOk) ?_ ⟨.start hk, ?_, nofun, ?_⟩
  · rintro ls s l s' ⟨hstep, hl⟩ ⟨hs, hnodup, hcovered, hgiven⟩
    exact ⟨hs.step hstep, hl.nodup hnodup hstep, hcovered.step hs hnodup hstep,
      hgiven.step hs hnodup hstep⟩
  · show k.forks.Nodup
    rw [hk.forks]
    exact List.nodup_nil
  · refine ⟨?_, ?_⟩
    · rintro pid (⟨i, pc, hi, -⟩ | ⟨c, flags, t, hmem⟩)
      · cases hi
      · cases hmem
    · rintro pid ⟨i, pc, hi, -⟩
      cases hi

theorem Silent.run {ls' : List ObserverLabel} (h : Silent pid serial s) (hs : s.Sound)
    (hnodup : s.kernel.forks.Nodup) (hrun : (observerSystem.restrict NoReuse).Run s ls' s') :
    Silent pid serial s' ∧ s'.observer.announcements pid = s.observer.announcements pid := by
  have hinv := hrun.invariant
    (P := fun x => x.Sound ∧ x.kernel.forks.Nodup ∧ Silent pid serial x ∧
      x.observer.announcements pid = s.observer.announcements pid)
    ?_ ⟨hs, hnodup, h, rfl⟩
  · exact hinv.2.2
  · rintro x a y ⟨hxy, ha⟩ ⟨hx, hxnodup, hxsilent, hxcount⟩
    exact ⟨hx.step hxy, ha.nodup hxnodup hxy, hxsilent.step hx hxnodup hxy,
      (hxsilent.announcements hx hxy).trans hxcount⟩

end

/-- **`wait_for` silences the observer**: in every run of forks, deaths, `add`, `on_sig_child`
and `wait_for` by any threads, with no pid given out twice, take an observed child that has been
reaped and is not in the hands of its own `add`. Either a thread inside `on_sig_child` has its
end in hand, or a call of `wait_for` has reported it, and not both; and in the second case the
child is in the map ever after and is never announced any more. -/
theorem silenced_iff_waited (k : Kernel) (hk : k.Fresh) (ls : List ObserverLabel)
    (s : ObserverState) (h : (observerSystem.restrict NoReuse).Run (.start k .initial) ls s)
    (pid serial : Nat) (hmap : s.observer.children pid = some (.forked pid serial))
    (hreaped : serial ∈ s.kernel.reaped) (hadd : ¬ s.InsideAdd (.forked pid serial)) :
    (Waited ls pid ↔ ¬ s.InHand pid) ∧
      (Waited ls pid → ∀ ls' s', (observerSystem.restrict NoReuse).Run s ls' s' →
        s'.observer.children pid = some (.forked pid serial) ∧
          s'.observer.announcements pid = s.observer.announcements pid) := by
  have hok := WaitersOk.run hk h
  have hiff : Waited ls pid ↔ ¬ s.InHand pid := by
    constructor
    · exact fun hw hin => hok.givenOut.once pid hin hw
    · intro hin
      rcases hok.covered pid serial hmap hreaped with hhand | hinside | hw
      · exact absurd hhand hin
      · exact absurd hinside hadd
      · exact hw
  refine ⟨hiff, fun hw ls' s' hrun => ?_⟩
  have hsilent : Silent pid serial s := by
    refine ⟨hmap, hreaped, fun i pc hi hpc => hiff.mp hw ⟨i, pc, hi, hpc⟩, ?_⟩
    intro i pc hi c hc hpid
    -- without reuse the pid names the child
    have hchild : pc.child = c := by
      cases pc <;> cases hc <;> rfl
    have hmade := hok.sound.adding i pc hi
    rw [hchild] at hmade
    have heq := ChildProcess.Made.eq_forked hok.sound.wf hok.nodup
      (hok.sound.mapped _ _ hmap).2 hmade hpid
    exact hadd ⟨i, pc, hi, heq ▸ hc⟩
  obtain ⟨hsilent', hcount⟩ := hsilent.run hok.sound hok.nodup hrun
  exact ⟨hsilent'.mapped, hcount⟩

/-- A child is added, ends, and is waited for. -/
def addedThenWaited : List ObserverLabel :=
  [.kernel (.fork 7), .callAdd 0 (.forked 7 0), .add 0 .lock, .add 0 .insert,
    .add 0 (.wait .nothing), .add 0 (.ret true), .kernel (.die 7 (.exited 0)),
    .waitFor (.forked 7 0) ⟨0⟩ (.changed 7 (.terminated (.exited 0)))]

theorem addedThenWaited_run :
    ∃ s, (observerSystem.restrict NoReuse).Run (.start .initOnly .initial) addedThenWaited s ∧
      s.observer.children 7 = some (.forked 7 0) ∧ 0 ∈ s.kernel.reaped ∧
      ¬ s.InsideAdd (.forked 7 0) ∧ s.observer.announcements 7 = 0 := by
  have hrunning : ∀ pid c t, (Kernel.initOnly.fork 7).slots pid = .child c →
      (WaitTarget.process 7).Selects pid c → c.phase ≠ .zombie t := by
    rintro _ c t hslot rfl
    cases hslot
    exact nofun
  refine ⟨_, .cons ⟨.kernel (.fork (by decide) rfl), List.not_mem_nil⟩ <|
    .cons ⟨.callAdd rfl rfl, trivial⟩ <|
    .cons ⟨.add rfl (.lock (by decide) rfl), trivial⟩ <|
    .cons ⟨.add rfl (.insert rfl), trivial⟩ <|
    .cons ⟨.add rfl (.alive (.nothing rfl ⟨7, _, rfl, rfl⟩ hrunning)), trivial⟩ <|
    .cons ⟨.add rfl .unlock, trivial⟩ <| .cons ⟨.kernel (.die rfl nofun), trivial⟩ <|
    .cons ⟨.waitFor rfl (.reap rfl rfl rfl), trivial⟩ (.nil _),
    rfl, List.mem_singleton_self 0, ?_, rfl⟩
  rintro ⟨i, pc, hi, hpc⟩
  by_cases hzero : i = 0
  · subst hzero
    cases hi
  · simp only [ObserverState.moveAdding, Function.update_of_ne hzero] at hi
    cases hi

theorem silenced_iff_waited_addedThenWaited :
    ∃ s, (observerSystem.restrict NoReuse).Run (.start .initOnly .initial) addedThenWaited s ∧
      ¬ s.InHand 7 ∧ ∀ ls' s', (observerSystem.restrict NoReuse).Run s ls' s' →
        s'.observer.children 7 = some (.forked 7 0) ∧ s'.observer.announcements 7 = 0 := by
  obtain ⟨s, hrun, hmap, hreaped, hadd, hnone⟩ := addedThenWaited_run
  obtain ⟨hiff, hsilent⟩ := silenced_iff_waited .initOnly Kernel.initOnly_fresh addedThenWaited s
    hrun 7 0 hmap hreaped hadd
  have hwaited : Waited addedThenWaited 7 := ⟨.forked 7 0, ⟨0⟩, .exited 0, by decide⟩
  refine ⟨s, hrun, hiff.mp hwaited, fun ls' s' hrun' => ?_⟩
  obtain ⟨hkept, hcount⟩ := hsilent hwaited ls' s' hrun'
  exact ⟨hkept, hcount.trans hnone⟩

end ProcessCpp.Core
