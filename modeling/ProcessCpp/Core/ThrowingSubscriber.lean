import ProcessCpp.Core.DeathAccount
import ProcessCpp.Core.ObserverRun

/-!
# Subscribers of `child_died` that throw

`add` and `on_sig_child` reap a child, announce it and only then erase it:

    signals.child_died(it->second);
    children.erase(it);

An exception from a subscriber releases the mutex and leaves the entry in the map. The
child has been reaped, so no `SIGCHLD` will ever lead back to it: `has` stays true for it,
and a later child with the same pid is refused (`throwing_subscriber_leaves_entry`).

- `throwSystem`: the threads around one observer (`Core/DeathObserver.lean`), with
  emissions that throw, and the history `gone` of the children the observer has reaped or
  found gone;
- `GoneCovered`: an entry of such a child is in the hands of the thread that is about to
  erase it;
- `gone_children_erased`: as long as no subscriber throws and pids are not mistaken, the
  map of an observer nobody is calling has no such entry.
-/

namespace ProcessCpp.Core

open ProcessCpp.Base ProcessCpp.Posix

/-! ## Emissions that throw -/

/-- The threads around an observer, and the children it has reaped or found gone. -/
structure ThrowState where
  threads : ObserverState
  /-- history -/
  gone : List ChildProcess

inductive ThrowLabel where
  | step (l : ObserverLabel)
  | addThrows (thread : Nat)
  | onSigChildThrows (thread : Nat)
deriving DecidableEq

/-- The child that an answer of `waitpid` reports, as its fork returned it. -/
def reported (k : Kernel) : WaitAnswer → List ChildProcess
  | .changed pid _ =>
    match k.slots pid with
    | .child c => [.forked pid c.serial]
    | _ => []
  | _ => []

namespace ThrowState

/-- What the observer has reaped or found gone after a step: its two members reap what
`waitpid` reports, and `add` takes any answer but `0` for the end of its child. -/
def goneAfter (s : ThrowState) : ObserverLabel → List ChildProcess
  | .onSigChild _ (.wait a) => reported s.threads.kernel a ++ s.gone
  | .add i (.wait a) =>
    match s.threads.adding i with
    | some pc =>
      if a = .nothing then s.gone else pc.child :: (reported s.threads.kernel a ++ s.gone)
    | none => s.gone
  | _ => s.gone

/-- No call on the observer is in progress. -/
def Quiet (s : ThrowState) : Prop :=
  (∀ i, s.threads.adding i = none) ∧ ∀ i, s.threads.handling i = none

def start (k : Kernel) : ThrowState := ⟨.start k .initial, []⟩

end ThrowState

/-- An observer's step, or the end of a call by an exception out of an emission, which
releases the mutex on its way. -/
inductive ThrowStep (s : ThrowState) : ThrowLabel → ThrowState → Prop where
  | step {l t'} (h : ObserverStep s.threads l t') : ThrowStep s (.step l) ⟨t', s.goneAfter l⟩
  | addThrows {i c} (hpc : s.threads.adding i = some (.missed c)) :
      ThrowStep s (.addThrows i)
        { s with
          threads :=
            s.threads.moveAdding i s.threads.kernel (s.threads.observer.emit c).unlocked none }
  | onSigChildThrows {i pid status c} (hpc : s.threads.handling i = some (.found pid status c))
      (hended : (wifsignaled status.word || wifexited status.word) = true) :
      ThrowStep s (.onSigChildThrows i)
        { s with
          threads :=
            s.threads.moveHandling i s.threads.kernel (s.threads.observer.emit c).unlocked none }

def throwSystem : LTS ThrowState ThrowLabel where
  step := ThrowStep

/-- The steps in which no subscriber throws and no `add` mistakes a pid: its `waitpid`
fails with `ECHILD` only, and does not find a living child that has the pid now. -/
def Undisrupted (s : ThrowState) : ThrowLabel → Prop
  | .addThrows _ | .onSigChildThrows _ => False
  | .step (.add _ (.wait (.failed e))) => e = .echild
  | .step (.add i (.wait .nothing)) => ∀ c d, s.threads.adding i = some (.inserted c) →
      s.threads.kernel.slots c.pid = .child d → c = .forked c.pid d.serial
  | _ => True

/-! ## Who is about to erase -/

/-- The child cannot be waited for any more. -/
def ChildProcess.Gone (k : Kernel) : ChildProcess → Prop
  | .forked _ serial => serial ∈ k.reaped
  | .invalid _ => True

/-- Some call of `on_sig_child` has this reaped pid in hand. -/
def ObserverState.SomeHolds (s : ObserverState) (pid : Nat) : Prop :=
  ∃ i pc, s.handling i = some pc ∧ pc.holding = some pid

/-- An entry of a child that is gone is about to be erased. -/
def ThrowState.GoneCovered (s : ThrowState) : Prop :=
  ∀ pid c, s.threads.observer.children pid = some c → c ∈ s.gone →
    s.threads.SomeHolds pid ∨ s.threads.InsideAdd c

theorem mem_reported {k : Kernel} {a : WaitAnswer} {c : ChildProcess} (h : c ∈ reported k a) :
    ∃ status d, a = .changed c.pid status ∧ k.slots c.pid = .child d ∧
      c = .forked c.pid d.serial := by
  cases a with
  | nothing => cases h
  | failed e => cases h
  | changed pid status =>
    have h' : c ∈ (match k.slots pid with
      | .child c => [ChildProcess.forked pid c.serial]
      | _ => []) := h
    cases hslot : k.slots pid with
    | vacant =>
      rw [hslot] at h'
      cases h'
    | stranger =>
      rw [hslot] at h'
      cases h'
    | child d =>
      rw [hslot] at h'
      obtain rfl := List.mem_singleton.mp h'
      exact ⟨status, d, rfl, hslot, rfl⟩

theorem ThrowState.mem_goneAfter {s : ThrowState} {l : ObserverLabel} {c : ChildProcess}
    (h : c ∈ s.goneAfter l) :
    c ∈ s.gone ∨
    (∃ i a pc, l = .add i (.wait a) ∧ a ≠ .nothing ∧ s.threads.adding i = some pc ∧
      (c = pc.child ∨ c ∈ reported s.threads.kernel a)) ∨
    ∃ i a, l = .onSigChild i (.wait a) ∧ c ∈ reported s.threads.kernel a := by
  unfold ThrowState.goneAfter at h
  split at h
  · rename_i i a
    rcases List.mem_append.mp h with hnew | hold
    · exact .inr (.inr ⟨i, a, rfl, hnew⟩)
    · exact .inl hold
  · rename_i i a
    split at h
    · rename_i pc hpc
      split at h
      · exact .inl h
      · rename_i ha
        rcases List.mem_cons.mp h with hchild | h
        · exact .inr (.inl ⟨i, a, pc, rfl, ha, hpc, .inl hchild⟩)
        · rcases List.mem_append.mp h with hnew | hold
          · exact .inr (.inl ⟨i, a, pc, rfl, ha, hpc, .inr hnew⟩)
          · exact .inl hold
    · exact .inl h
  · exact .inl h

/-- Only `add` at its `waitpid` makes the step with that label. -/
theorem AddStep.wait_inv {me : Nat} {k k' : Kernel} {o o' : Observer} {pc : AddPc}
    {a : WaitAnswer} {pc' : Option AddPc} (h : AddStep me k o pc (.wait a) k' o' pc') :
    ∃ c, pc = .inserted c ∧ o' = o ∧ Waitpid k (.process c.pid) .wnohang a k' ∧
      (a ≠ .nothing → pc' = some (.missed c)) := by
  cases h with
  | alive hw => exact ⟨_, rfl, rfl, hw, fun ha => absurd rfl ha⟩
  | gone hw => exact ⟨_, rfl, rfl, hw, fun _ => rfl⟩

theorem OscStep.changed_inv {me : Nat} {k k' : Kernel} {o o' : Observer} {pc : OscPc}
    {pid : Nat} {status : StateChange} {pc' : Option OscPc}
    (h : OscStep me k o pc (.wait (.changed pid status)) k' o' pc') :
    Waitpid k .ownGroup .wnohang (.changed pid status) k' ∧ pc' = some (.reaped pid status) := by
  cases h with
  | reaped hw => exact ⟨hw, rfl⟩
  | noMoreChildren _ ha => rcases ha with ha | ha <;> cases ha

namespace ThrowState

variable {s s' : ThrowState} {l : ObserverLabel} {t' : ObserverState}

/-- Everything recorded as gone cannot be waited for any more. -/
theorem gone_step (hs : s.threads.Sound) (hgone : ∀ c ∈ s.gone, c.Gone s.threads.kernel)
    (h : ObserverStep s.threads l t') (hl : Undisrupted s (.step l)) :
    ∀ c ∈ s.goneAfter l, c.Gone t'.kernel := by
  have hreported : ∀ {target a c}, Waitpid s.threads.kernel target .wnohang a t'.kernel →
      c ∈ reported s.threads.kernel a → c.Gone t'.kernel := by
    intro target a c hw hc
    obtain ⟨status, d, rfl, hslot, heq⟩ := mem_reported hc
    rw [heq]
    exact hw.reaped_of_changed hs.wf (hs.wf.slot _ _ hslot).1
  intro c hc
  rcases mem_goneAfter hc with hold | ⟨i, a, pc, rfl, ha, hpc, hnew⟩ | ⟨i, a, rfl, hnew⟩
  · have hgone' := hgone c hold
    cases c with
    | forked pid serial => exact h.reaped hgone'
    | invalid n => trivial
  · cases h with
    | add hpc' hadd =>
      obtain ⟨d, rfl, -, hw, -⟩ := hadd.wait_inv
      rw [hpc'] at hpc
      cases hpc
      rcases hnew with rfl | hnew
      · have hmade := hs.adding i _ hpc'
        cases c with
        | forked pid serial =>
          refine hw.reaped_of_ne_nothing hs.wf hmade ha ?_
          rintro e rfl
          exact hl
        | invalid n => trivial
      · exact hreported hw hnew
  · cases h with
    | onSigChild hpc' hosc =>
      obtain ⟨status, d, rfl, -, -⟩ := mem_reported hnew
      exact hreported hosc.changed_inv.1 hnew

/-- A child that an `add` finds gone is the one it has inserted. -/
theorem insideAdd_of_new (hs : s.threads.Sound)
    (hledger : s.threads.Protected (Observer.Ledger none) AddPc.Ledger OscPc.Ledger) {i : Nat}
    {pc : AddPc} {a : WaitAnswer} {k' : Kernel} {o' : Observer} {pc' : Option AddPc}
    (hpc : s.threads.adding i = some pc)
    (hadd : AddStep i s.threads.kernel s.threads.observer pc (.wait a) k' o' pc')
    (ha : a ≠ .nothing) {pid : Nat} {c : ChildProcess}
    (hmap : s.threads.observer.children pid = some c)
    (hnew : c = pc.child ∨ c ∈ reported s.threads.kernel a) :
    (s.threads.moveAdding i k' o' pc').InsideAdd c := by
  obtain ⟨d, rfl, -, hw, hpc'⟩ := hadd.wait_inv
  obtain rfl := hpc' ha
  suffices hc : c = d from ⟨i, .missed d, Function.update_self .., congrArg some hc.symm⟩
  rcases hnew with hc | hc
  · exact hc
  · -- the report is about the pid that was asked for, and the map has `d` there
    obtain ⟨status, child, rfl, -, -⟩ := mem_reported hc
    have hpid : c.pid = d.pid := by
      cases hw with
      | reap _ hsel => exact hsel
      | stopped _ _ hsel => exact hsel
      | continued _ _ hsel => exact hsel
    obtain rfl := (hs.mapped pid c hmap).1
    have hentry := (hledger.adding i _ hpc rfl).2
    rw [← hpid, hmap] at hentry
    exact Option.some.inj hentry

theorem GoneCovered.addStep (h : s.GoneCovered) (hs : s.threads.Sound)
    (hledger : s.threads.Protected (Observer.Ledger none) AddPc.Ledger OscPc.Ledger)
    (hgone : ∀ c ∈ s.gone, c.Gone s.threads.kernel) {i : Nat} {pc : AddPc} {al : AddLabel}
    {k' : Kernel} {o' : Observer} {pc' : Option AddPc} (hpc : s.threads.adding i = some pc)
    (hadd : AddStep i s.threads.kernel s.threads.observer pc al k' o' pc')
    (hl : Undisrupted s (.step (.add i al))) :
    GoneCovered ⟨s.threads.moveAdding i k' o' pc', s.goneAfter (.add i al)⟩ := by
  intro pid c hmap hc
  rcases hadd.children hmap with hold | ⟨-, -, hpc'⟩
  · rcases mem_goneAfter hc with hold' | ⟨j, a, b, hal, ha, hb, hnew⟩ | ⟨j, a, hal, -⟩
    · rcases h pid c hold hold' with hholds | hinside
      · exact .inl hholds
      · right
        obtain rfl := (hs.mapped pid c hold).1
        refine hinside.addStep hpc hadd hmap ?_
        -- the child found alive under the pid is the one that was asked for
        rintro rfl rfl hw
        cases hw with
        | nothing _ hsome =>
          obtain ⟨q, d, hslot, hsel⟩ := hsome
          obtain rfl : q = c.pid := hsel
          have hreaped := hgone c hold'
          rw [hl c d hpc hslot] at hreaped
          exact (hs.wf.slot _ d hslot).2 hreaped
    · cases hal
      rw [hpc] at hb
      cases hb
      exact .inr (insideAdd_of_new hs hledger hpc hadd ha hold hnew)
    · cases hal
  · subst hpc'
    exact .inr ⟨i, _, Function.update_self .., rfl⟩

theorem GoneCovered.oscStep (h : s.GoneCovered) (hs : s.threads.Sound) {i : Nat} {pc : OscPc}
    {ol : OscLabel} {k' : Kernel} {o' : Observer} {pc' : Option OscPc}
    (hpc : s.threads.handling i = some pc)
    (hosc : OscStep i s.threads.kernel s.threads.observer pc ol k' o' pc') :
    GoneCovered ⟨s.threads.moveHandling i k' o' pc', s.goneAfter (.onSigChild i ol)⟩ := by
  intro pid c hmap hc
  have hold := hosc.children hmap
  rcases mem_goneAfter hc with hold' | ⟨j, a, b, hal, -⟩ | ⟨j, a, hal, hnew⟩
  · rcases h pid c hold hold' with hholds | hinside
    · left
      refine exists_update_of_some hholds hpc fun hholding => ?_
      rcases hosc.holding_cases (hs.handling _ _ hpc) hholding with hkept | hnone
      · exact hkept
      · exact absurd (hmap.symm.trans hnone) (Option.some_ne_none c)
    · exact .inr hinside
  · cases hal
  · cases hal
    obtain ⟨status, d, rfl, -, -⟩ := mem_reported hnew
    obtain ⟨-, rfl⟩ := hosc.changed_inv
    obtain rfl := (hs.mapped pid c hold).1
    exact .inl ⟨i, _, Function.update_self .., rfl⟩

/-- What holds in every state of a run without disruptions. -/
structure Inv (s : ThrowState) : Prop where
  sound : s.threads.Sound
  guarded : s.threads.Guarded
  ledger : s.threads.Protected (Observer.Ledger none) AddPc.Ledger OscPc.Ledger
  gone : ∀ c ∈ s.gone, c.Gone s.threads.kernel
  covered : s.GoneCovered

theorem Inv.coveredStep (h : s.Inv) (hstep : ObserverStep s.threads l t')
    (hl : Undisrupted s (.step l)) : GoneCovered ⟨t', s.goneAfter l⟩ := by
  cases hstep with
  | kernel | waitFor => exact h.covered
  | @callAdd i c hidle hmade =>
    intro pid d hmap hd
    exact (h.covered pid d hmap hd).imp_right fun hinside => exists_update_of_none hinside hidle
  | add hpc hadd => exact h.covered.addStep h.sound h.ledger h.gone hpc hadd hl
  | @callOnSigChild i hidle =>
    intro pid d hmap hd
    exact (h.covered pid d hmap hd).imp_left fun hholds => exists_update_of_none hholds hidle
  | onSigChild hpc hosc => exact h.covered.oscStep h.sound hpc hosc

theorem Inv.step {tl : ThrowLabel} (h : s.Inv) (hstep : ThrowStep s tl s')
    (hl : Undisrupted s tl) : s'.Inv := by
  cases hstep with
  | step hstep =>
    exact ⟨h.sound.step hstep, h.guarded.step hstep,
      h.ledger.step ledger_discipline h.guarded hstep, gone_step h.sound h.gone hstep hl,
      h.coveredStep hstep hl⟩
  | addThrows => exact hl.elim
  | onSigChildThrows => exact hl.elim

theorem Inv.start {k : Kernel} (hk : k.Fresh) : (start k).Inv :=
  ⟨.start hk, ⟨nofun, nofun⟩, ⟨fun _ => Observer.ledger_initial, nofun, nofun⟩, nofun, nofun⟩

/-- While nobody is inside a call, nobody is about to erase anything. -/
theorem Inv.not_gone (h : s.Inv) (hquiet : s.Quiet) {pid : Nat} {c : ChildProcess}
    (hmap : s.threads.observer.children pid = some c) : c ∉ s.gone := by
  intro hc
  rcases h.covered pid c hmap hc with ⟨i, pc, hpc, -⟩ | ⟨i, pc, hpc, -⟩
  · rw [hquiet.2 i] at hpc
    cases hpc
  · rw [hquiet.1 i] at hpc
    cases hpc

end ThrowState

/-- **When the map has no entry of a child that is gone**: in every run in which no
subscriber throws and no `add` mistakes a pid, whenever no call is in progress, `children`
has no child that the observer has reaped or found gone. So `has` is true, and a new child
is refused, only because of an entry of a child that has not been reaped; and while pids
are not reused, `has` is false for every child of a fork that is gone. -/
theorem gone_children_erased (k : Kernel) (hk : k.Fresh) (ls : List ThrowLabel) (s : ThrowState)
    (h : (throwSystem.restrict Undisrupted).Run (.start k) ls s) (hquiet : s.Quiet) :
    (∀ pid c, s.threads.observer.children pid = some c → c ∉ s.gone) ∧
    (∀ d, s.threads.observer.has d = true →
      ∃ c, s.threads.observer.children d.pid = some c ∧ c ∉ s.gone) ∧
    (s.threads.kernel.forks.Nodup → ∀ pid serial, .forked pid serial ∈ s.gone →
      s.threads.kernel.forks[serial]? = some pid →
        s.threads.observer.has (.forked pid serial) = false) := by
  have hinv : s.Inv := by
    refine h.invariant (P := ThrowState.Inv) ?_ (.start hk)
    rintro t l t' ⟨hstep, hl⟩ ht
    exact ht.step hstep hl
  refine ⟨fun pid c hmap => hinv.not_gone hquiet hmap, fun d hd => ?_, ?_⟩
  · obtain ⟨c, hc⟩ := Option.isSome_iff_exists.mp hd
    exact ⟨c, hc, hinv.not_gone hquiet hc⟩
  · intro hnodup pid serial hgone hmade
    cases hentry : s.threads.observer.children pid with
    | none =>
      show (s.threads.observer.children pid).isSome = false
      rw [hentry]
      rfl
    | some c =>
      -- without reuse the entry under the pid is this very child
      obtain ⟨hpid, hc⟩ := hinv.sound.mapped pid c hentry
      obtain rfl := ChildProcess.Made.eq_forked hinv.sound.wf hnodup hmade hc hpid
      exact absurd hgone (hinv.not_gone hquiet hentry)

/-- An `add` finds that its child has ended. -/
def addFindsGone : List ThrowLabel :=
  [.step (.kernel (.fork 7)), .step (.kernel (.die 7 (.exited 0))),
    .step (.callAdd 0 (.forked 7 0)), .step (.add 0 .lock), .step (.add 0 .insert),
    .step (.add 0 (.wait (.changed 7 (.terminated (.exited 0)))))]

/-- The subscribers return. -/
def addAnnounces : List ThrowLabel :=
  [.step (.add 0 .emit), .step (.add 0 .erase), .step (.add 0 (.ret false))]

theorem addAnnounces_run :
    ∃ s, (throwSystem.restrict Undisrupted).Run (.start .initOnly)
        (addFindsGone ++ addAnnounces) s ∧
      s.Quiet ∧ .forked 7 0 ∈ s.gone ∧ s.threads.kernel.forks = [7] := by
  refine ⟨_, .cons ⟨.step (.kernel (.fork (by decide) rfl)), trivial⟩
    (.cons ⟨.step (.kernel (.die rfl nofun)), trivial⟩
    (.cons ⟨.step (.callAdd rfl rfl), trivial⟩
    (.cons ⟨.step (.add rfl (.lock (by decide) rfl)), trivial⟩
    (.cons ⟨.step (.add rfl (.insert rfl)), trivial⟩
    (.cons ⟨.step (.add rfl (.gone (.reap rfl rfl rfl) nofun)), trivial⟩
    (.cons ⟨.step (.add rfl .emit), trivial⟩
    (.cons ⟨.step (.add rfl .erase), trivial⟩
    (.cons ⟨.step (.add rfl .unlock), trivial⟩ (.nil _))))))))), ⟨fun i => ?_, fun _ => rfl⟩,
    List.mem_cons_self, rfl⟩
  by_cases hi : i = 0 <;>
    simp [ObserverState.moveAdding, ThrowState.start, ObserverState.start, hi]

theorem gone_children_erased_addAnnounces :
    ∃ s, (throwSystem.restrict Undisrupted).Run (.start .initOnly)
        (addFindsGone ++ addAnnounces) s ∧
      s.Quiet ∧ .forked 7 0 ∈ s.gone ∧ s.threads.observer.has (.forked 7 0) = false := by
  obtain ⟨s, hrun, hquiet, hgone, hforks⟩ := addAnnounces_run
  refine ⟨s, hrun, hquiet, hgone, ?_⟩
  refine (gone_children_erased _ Kernel.initOnly_fresh _ s hrun hquiet).2.2 ?_ 7 0 hgone ?_
  · rw [hforks]
    exact List.nodup_singleton 7
  · rw [hforks]
    rfl

/-- A subscriber throws: the call is over, the child is reaped, and its entry stays. -/
theorem throwing_subscriber_leaves_entry :
    ∃ s, throwSystem.Run (.start .initOnly) (addFindsGone ++ [.addThrows 0]) s ∧ s.Quiet ∧
      s.threads.observer.children 7 = some (.forked 7 0) ∧ .forked 7 0 ∈ s.gone ∧
      s.threads.observer.has (.forked 7 0) = true := by
  refine ⟨_, .cons (.step (.kernel (.fork (by decide) rfl)))
    (.cons (.step (.kernel (.die rfl nofun)))
    (.cons (.step (.callAdd rfl rfl)) (.cons (.step (.add rfl (.lock (by decide) rfl)))
    (.cons (.step (.add rfl (.insert rfl)))
    (.cons (.step (.add rfl (.gone (.reap rfl rfl rfl) nofun)))
    (.cons (.addThrows rfl) (.nil _))))))), ⟨fun i => ?_, fun _ => rfl⟩, rfl,
    List.mem_cons_self, rfl⟩
  by_cases hi : i = 0 <;>
    simp [ObserverState.moveAdding, ThrowState.start, ObserverState.start, hi]

end ProcessCpp.Core
