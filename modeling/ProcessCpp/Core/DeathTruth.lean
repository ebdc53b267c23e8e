import ProcessCpp.Core.DeathAccount

/-!
# When death notifications are true

The observer knows its children by pid alone, and it trusts a pid in three places where
a pid is not enough:

- `add` takes every answer of `waitpid` but `0` for the death of its argument, also the
  `ECHILD` it gets for `ChildProcess::invalid()`, whose pid is that of init;
- and also an error that has nothing to do with the child;
- `on_sig_child` reaps before it takes the mutex. Once reaped, the pid can go to a new
  child, and if that one is added meanwhile, `on_sig_child` announces it although it runs.

Outside these cases every announcement is of a child that has ended (`deaths_truthful`),
with pids reused at will: an old value under a reused pid is at worst announced late.
-/

namespace ProcessCpp.Core

open ProcessCpp.Base ProcessCpp.Posix

variable {s s' : ObserverState} {k k' : Kernel} {o o' : Observer}

/-- The value was returned by a fork, and the process that fork created has terminated. -/
def ChildProcess.Terminated (k : Kernel) : ChildProcess → Prop
  | .forked pid serial => k.forks[serial]? = some pid ∧ k.Dead pid serial
  | .invalid _ => False

/-- Some call of `on_sig_child` has reaped this pid and not looked it up yet. -/
def ObserverState.InFlight (s : ObserverState) (pid : Nat) : Prop :=
  ∃ i status, s.handling i = some (.reaped pid status)

/-- The steps that do not use a pid for the wrong process: `add` is not called for an
invalid value, its `waitpid` fails with `ECHILD` only, and it inserts no living child under
a pid that is in flight. -/
def Unambiguous (s : ObserverState) : ObserverLabel → Prop
  | .callAdd _ c => ∀ n, c ≠ .invalid n
  | .add _ (.wait (.failed e)) => e = .echild
  | .add i .insert => ∀ c, s.adding i = some (.locked c) → s.InFlight c.pid →
      c.Terminated s.kernel
  | _ => True

/-! ## One step -/

theorem ChildProcess.Terminated.mono {c : ChildProcess} (h : c.Terminated k)
    (hforks : k.ForksKept k') (hdead : ∀ pid serial, k.Dead pid serial → k'.Dead pid serial) :
    c.Terminated k' := by
  cases c with
  | forked pid serial => exact ⟨hforks serial pid h.1, hdead pid serial h.2⟩
  | invalid n => exact h.elim

/-- The value is one a fork returned. -/
def ChildProcess.Forked (c : ChildProcess) : Prop := ∃ pid serial, c = .forked pid serial

/-- What a thread inside `add` has in hand: a value from a fork, and once it has been
missed, one whose child has ended. -/
structure AddPc.Truthful (k : Kernel) (pc : AddPc) : Prop where
  forked : pc.child.Forked
  missed : ∀ c, pc = .missed c → c.Terminated k

theorem AddPc.Truthful.mono {pc : AddPc} (h : pc.Truthful k)
    (hterm : ∀ c : ChildProcess, c.Terminated k → c.Terminated k') : pc.Truthful k' :=
  ⟨h.forked, fun c hc => hterm c (h.missed c hc)⟩

/-- What a thread inside `on_sig_child` is going to announce. -/
def OscPc.Truthful (k : Kernel) (o : Observer) : OscPc → Prop
  | .reaped pid _ | .locked pid _ => ∀ c, o.children pid = some c → c.Terminated k
  | .found _ _ c => c.Terminated k
  | _ => True

theorem OscPc.Truthful.mono {pc : OscPc} (h : pc.Truthful k o)
    (hterm : ∀ c : ChildProcess, c.Terminated k → c.Terminated k')
    (hmap : ∀ pid c, (∃ status, pc = .reaped pid status ∨ pc = .locked pid status) →
      o'.children pid = some c → o.children pid = some c ∨ c.Terminated k') :
    pc.Truthful k' o' := by
  cases pc with
  | reaped pid status =>
    intro c hc
    rcases hmap pid c ⟨status, .inl rfl⟩ hc with hold | hnew
    · exact hterm c (h c hold)
    · exact hnew
  | locked pid status =>
    intro c hc
    rcases hmap pid c ⟨status, .inr rfl⟩ hc with hold | hnew
    · exact hterm c (h c hold)
    · exact hnew
  | found pid status c => exact hterm c h
  | wait | emitted | leaving => trivial

/-- Whatever the map has under a pid that has just been reaped has ended. -/
theorem ObserverState.Sound.terminated_of_changed (h : s.Sound) {target : WaitTarget}
    {pid : Nat} {change : StateChange}
    (hw : Waitpid s.kernel target .wnohang (.changed pid change) k') {c : ChildProcess}
    (hc : s.observer.children pid = some c) : c.Terminated k' := by
  obtain ⟨hpid, hmade⟩ := h.mapped pid c hc
  cases c with
  | forked q serial =>
    obtain rfl : q = pid := hpid
    exact ⟨hw.forksKept _ _ hmade, .inr (hw.reaped_of_changed h.wf hmade)⟩
  | invalid n =>
    -- a reaped pid was handed out by a fork, and no fork is given the pid of init
    exfalso
    obtain rfl : (1 : Nat) = pid := hpid
    have hslot : ∃ d, s.kernel.slots 1 = .child d := by
      cases hw with
      | reap hslot => exact ⟨_, hslot⟩
      | stopped _ hslot => exact ⟨_, hslot⟩
      | continued _ hslot => exact ⟨_, hslot⟩
    obtain ⟨d, hd⟩ := hslot
    have hpos := h.wf.pid_pos 1 (List.mem_of_getElem? (h.wf.slot 1 d hd).1)
    omega

namespace ObserverState

/-- Everything announced, or about to be, is the death of a child that has ended. -/
structure Truthful (s : ObserverState) : Prop where
  died : ∀ c ∈ s.observer.died, c.Terminated s.kernel
  adding : ∀ i pc, s.adding i = some pc → pc.Truthful s.kernel
  handling : ∀ i pc, s.handling i = some pc → pc.Truthful s.kernel s.observer

theorem Truthful.addStep (h : s.Truthful) (hs : s.Sound) (hg : s.Guarded) {i : Nat} {pc : AddPc}
    {l : AddLabel} {pc' : Option AddPc} (hpc : s.adding i = some pc)
    (hstep : AddStep i s.kernel s.observer pc l k' o' pc') (hl : Unambiguous s (.add i l))
    (hterm : ∀ c : ChildProcess, c.Terminated s.kernel → c.Terminated k') :
    (s.moveAdding i k' o' pc').Truthful := by
  have hforked := (h.adding i pc hpc).forked
  refine ⟨fun c hc => ?_, forall_update (fun j b _ hj => ?_) fun b hb => ?_, fun j b hj => ?_⟩
  · cases hstep with
    | emit =>
      rcases List.mem_append.mp hc with hold | hnew
      · exact h.died c hold
      · rw [List.mem_singleton.mp hnew]
        exact (h.adding i _ hpc).missed _ rfl
    | _ => exact hterm c (h.died c hc)
  · exact (h.adding j b hj).mono hterm
  · subst hb
    refine ⟨hstep.child ▸ hforked, ?_⟩
    rintro c rfl
    cases hstep with
    | gone hw ha =>
      obtain ⟨pid, serial, rfl⟩ := hforked
      have hmade := hs.adding i _ hpc
      refine ⟨hw.forksKept _ _ hmade, .inr (hw.reaped_of_ne_nothing hs.wf hmade ha ?_)⟩
      rintro e rfl
      exact hl
  · refine (h.handling j b hj).mono hterm fun pid c hplace hc => ?_
    rcases hstep.children hc with hold | ⟨rfl, rfl, hpc'⟩
    · exact .inl hold
    · right
      obtain ⟨status, rfl | rfl⟩ := hplace
      · -- inserted while the pid is in flight
        cases hstep with
        | insert => exact hterm c (hl c hpc ⟨j, status, hj⟩)
        | present => cases hpc'
      · exact (hg.not_both hpc rfl hj rfl).elim

theorem Truthful.oscStep (h : s.Truthful) (hs : s.Sound) {i : Nat} {pc : OscPc}
    {l : OscLabel} {pc' : Option OscPc} (hpc : s.handling i = some pc)
    (hstep : OscStep i s.kernel s.observer pc l k' o' pc')
    (hterm : ∀ c : ChildProcess, c.Terminated s.kernel → c.Terminated k') :
    (s.moveHandling i k' o' pc').Truthful := by
  have hmine := h.handling i pc hpc
  refine ⟨fun c hc => ?_, fun j b hj => ?_, forall_update (fun j b _ hj => ?_) fun b hb => ?_⟩
  · cases hstep with
    | emit =>
      rcases List.mem_append.mp hc with hold | hnew
      · exact h.died c hold
      · rw [List.mem_singleton.mp hnew]
        exact hmine
    | _ => exact hterm c (h.died c hc)
  · exact (h.adding j b hj).mono hterm
  · exact (h.handling j b hj).mono hterm fun pid c _ hc => .inl (hstep.children hc)
  · subst hb
    cases hstep with
    | reaped hw => exact fun c hc => hs.terminated_of_changed hw hc
    | lock => exact hmine
    | found hfind => exact hmine _ hfind
    | stray | notFound | emit | skip | erase | unlock => trivial

theorem Truthful.step {l : ObserverLabel} (h : s.Truthful) (hs : s.Sound) (hg : s.Guarded)
    (hstep : ObserverStep s l s') (hl : Unambiguous s l) : s'.Truthful := by
  have hterm : ∀ c : ChildProcess, c.Terminated s.kernel → c.Terminated s'.kernel :=
    fun c hc => hc.mono hstep.forksKept fun _ _ => hstep.dead
  have hkernel : ∀ k', (∀ c : ChildProcess, c.Terminated s.kernel → c.Terminated k') →
      Truthful { s with kernel := k' } := fun k' hk' =>
    ⟨fun c hc => hk' c (h.died c hc),
      fun i pc hpc => (h.adding i pc hpc).mono hk',
      fun i pc hpc => (h.handling i pc hpc).mono hk' fun _ _ _ hc => .inl hc⟩
  cases hstep with
  | kernel => exact hkernel _ hterm
  | waitFor => exact hkernel _ hterm
  | @callAdd i c hidle hmade =>
    refine ⟨h.died, forall_update (fun j pc _ => h.adding j pc) ?_, h.handling⟩
    rintro _ ⟨⟩
    refine ⟨?_, nofun⟩
    cases c with
    | forked pid serial => exact ⟨pid, serial, rfl⟩
    | invalid n => exact absurd rfl (hl n)
  | add hpc hadd => exact h.addStep hs hg hpc hadd hl hterm
  | callOnSigChild =>
    refine ⟨h.died, h.adding, forall_update (fun j pc _ => h.handling j pc) ?_⟩
    rintro _ ⟨⟩
    trivial
  | onSigChild hpc hosc => exact h.oscStep hs hpc hosc hterm

end ObserverState

/-! ## Whole runs -/

/-- **When death notifications are true**: in every run whose steps never use a pid for the
wrong process, every value announced was returned by a fork, and the process that fork
created has terminated. -/
theorem deaths_truthful (k : Kernel) (hk : k.Fresh) (ls : List ObserverLabel) (s : ObserverState)
    (h : (observerSystem.restrict Unambiguous).Run (.start k .initial) ls s) :
    ∀ c ∈ s.observer.died, ∃ pid serial, c = .forked pid serial ∧
      s.kernel.forks[serial]? = some pid ∧ s.kernel.Dead pid serial := by
  have hinv : s.Sound ∧ s.Guarded ∧ s.Truthful := by
    refine h.invariant (P := fun t => t.Sound ∧ t.Guarded ∧ t.Truthful) ?_
      ⟨.start hk, ⟨nofun, nofun⟩, ⟨nofun, nofun, nofun⟩⟩
    rintro t l t' ⟨hstep, hl⟩ ⟨hs, hg, ht⟩
    exact ⟨hs.step hstep, hg.step hstep, ht.step hs hg hstep hl⟩
  intro c hc
  have hterm := hinv.2.2.died c hc
  cases c with
  | forked pid serial => exact ⟨pid, serial, rfl, hterm⟩
  | invalid n => exact hterm.elim

/-- A child that ends while it is being added, and is announced by `add`. -/
def announcedMissed : List ObserverLabel :=
  [.kernel (.fork 7), .callAdd 0 (.forked 7 0), .add 0 .lock, .add 0 .insert,
    .kernel (.die 7 (.exited 0)), .add 0 (.wait (.changed 7 (.terminated (.exited 0)))),
    .add 0 .emit]

theorem announcedMissed_run :
    ∃ s, (observerSystem.restrict Unambiguous).Run (.start .initOnly .initial) announcedMissed s ∧
      s.observer.died = [.forked 7 0] := by
  refine ⟨_, .cons ⟨.kernel (.fork (by decide) rfl), trivial⟩
    (.cons ⟨.callAdd rfl rfl, nofun⟩ (.cons ⟨.add rfl (.lock (by decide) rfl), trivial⟩
    (.cons ⟨.add rfl (.insert rfl), ?_⟩ (.cons ⟨.kernel (.die rfl nofun), trivial⟩
    (.cons ⟨.add rfl (.gone (.reap rfl rfl rfl) nofun), trivial⟩
    (.cons ⟨.add rfl .emit, trivial⟩ (.nil _))))))), rfl⟩
  -- nobody is inside `on_sig_child`
  rintro c - ⟨j, status, hj⟩
  cases hj

theorem deaths_truthful_announcedMissed :
    ∃ s, (observerSystem.restrict Unambiguous).Run (.start .initOnly .initial) announcedMissed s ∧
      .forked 7 0 ∈ s.observer.died ∧ ∃ pid serial, (.forked 7 0 : ChildProcess) =
        .forked pid serial ∧ s.kernel.forks[serial]? = some pid ∧ s.kernel.Dead pid serial := by
  obtain ⟨s, hrun, hdied⟩ := announcedMissed_run
  have hmem : .forked 7 0 ∈ s.observer.died := by
    rw [hdied]
    exact List.mem_singleton_self _
  exact ⟨s, hrun, hmem, deaths_truthful _ Kernel.initOnly_fresh _ s hrun _ hmem⟩

/-- `add(ChildProcess::invalid())`. -/
def addsInvalid : List ObserverLabel :=
  [.callAdd 0 (.invalid 0), .add 0 .lock, .add 0 .insert, .add 0 (.wait (.failed .echild)),
    .add 0 .emit]

/-- `on_sig_child` reaps a child; before it takes the mutex, the pid goes to a new child,
which is added and runs. -/
def addsInFlight : List ObserverLabel :=
  [.kernel (.fork 7), .kernel (.die 7 (.exited 0)), .callOnSigChild 0,
    .onSigChild 0 (.wait (.changed 7 (.terminated (.exited 0)))), .kernel (.fork 7),
    .callAdd 1 (.forked 7 1), .add 1 .lock, .add 1 .insert, .add 1 (.wait .nothing),
    .add 1 (.ret true), .onSigChild 0 .lock, .onSigChild 0 .find, .onSigChild 0 .emit]

/-- The value of no fork is announced, and a running child is. -/
theorem death_announced_falsely :
    (∃ s, observerSystem.Run (.start .initOnly .initial) addsInvalid s ∧
      s.observer.died = [.invalid 0] ∧ ¬ (ChildProcess.invalid 0).Terminated s.kernel) ∧
    ∃ s, observerSystem.Run (.start .initOnly .initial) addsInFlight s ∧
      s.observer.died = [.forked 7 1] ∧ s.kernel.slots 7 = .child ⟨1, true, .running⟩ ∧
      ¬ (ChildProcess.forked 7 1).Terminated s.kernel := by
  constructor
  · refine ⟨_, .cons (.callAdd rfl trivial) (.cons (.add rfl (.lock (by decide) rfl))
      (.cons (.add rfl (.insert rfl)) (.cons (.add rfl (.gone (.noChild ?_) nofun))
      (.cons (.add rfl .emit) (.nil _))))), rfl, nofun⟩
    exact fun pid c hslot => absurd hslot (Kernel.initOnly_fresh.slots pid c)
  · refine ⟨_, .cons (.kernel (.fork (by decide) rfl)) (.cons (.kernel (.die rfl nofun))
      (.cons (.callOnSigChild rfl) (.cons (.onSigChild rfl (.reaped (.reap rfl rfl rfl)))
      (.cons (.kernel (.fork (by decide) rfl)) (.cons (.callAdd rfl rfl)
      (.cons (.add rfl (.lock (by decide) rfl)) (.cons (.add rfl (.insert rfl))
      (.cons (.add rfl (.alive (.nothing rfl ⟨7, _, rfl, rfl⟩ ?_)))
      (.cons (.add rfl .unlock) (.cons (.onSigChild rfl (.lock rfl))
      (.cons (.onSigChild rfl (.found rfl)) (.cons (.onSigChild rfl (.emit (by decide)))
      (.nil _))))))))))))), rfl, rfl, ?_⟩
    · rintro pid c t hslot rfl hz
      cases hslot
      cases hz
    · rintro ⟨-, ⟨c, t, hslot, -, hz⟩ | hr⟩
      · cases hslot
        cases hz
      · revert hr
        decide

end ProcessCpp.Core
