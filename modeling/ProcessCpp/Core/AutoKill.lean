import Mathlib.Data.List.Basic
import ProcessCpp.Core.DeathObserver

/-!
# The automatic `SIGKILL` of `ChildProcess::Private` (child_process.cpp:293–303)

All copies of a `ChildProcess` share one `Private`, and when the last copy goes, its
destructor sends `SIGKILL` to the pid it was made with:

    // If so, check if we are considering a valid pid here.
    // If so, we kill the original child.
    if (original_child_pid != -1)
        ::kill(original_child_pid, SIGKILL);

Nothing makes the pid `-1` when the child is reaped, by `wait_for`, by `add` or by
`on_sig_child`, and `ChildProcess::invalid()` is made with pid `1`. From the reaping on,
the pid is anybody's.

- `Lifetimes`: who holds copies: the user's code, the observer's map, the calls of `add`
  in progress; and a history of the kills;
- `LastCopy`: the step destroys the last copy of this value;
- `Kill.Good`: the kill is aimed at the child of the fork that made the value, which has
  not been reaped;
- `kills_good_iff`: all kills of a run are good if and only if no step of it destroys the
  last copy of an invalid value or of one whose child has been reaped.
-/

namespace ProcessCpp.Core

open ProcessCpp.Base ProcessCpp.Posix

/-! ## The destructor -/

/-- `ChildProcess::Private::~Private`: the arguments of its `kill`, if it calls it. -/
def privateDtor (originalParentPid getpid : Nat) (originalChildPid : Int) :
    Option (Int × Signal) :=
  if originalParentPid = getpid then
    if originalChildPid ≠ -1 then some (originalChildPid, Signal.sigKill) else none
  else
    none

/-- A `kill(pid, SIGKILL)` by the destructor of this value, with the owner of the pid at
that moment. -/
structure Kill where
  value : ChildProcess
  slot : Slot
deriving DecidableEq

/-- The kill is aimed at the child of the fork that made the value; a child that still
owns its pid has not been reaped. -/
def Kill.Good (kill : Kill) : Prop :=
  match kill.value with
  | .forked _ serial => ∃ c, kill.slot = .child c ∧ c.serial = serial
  | .invalid _ => False

/-- What the destructor of a value does in the process that made it. -/
def killsOf (self : Nat) (k : Kernel) (c : ChildProcess) : List Kill :=
  match privateDtor self self c.pid with
  | some _ => [⟨c, k.slots c.pid⟩]
  | none => []

/-- A pid is never `-1`, so the destructor always kills. -/
theorem killsOf_eq (self : Nat) (k : Kernel) (c : ChildProcess) :
    killsOf self k c = [⟨c, k.slots c.pid⟩] := by
  have hpid : (c.pid : Int) ≠ -1 := by omega
  unfold killsOf privateDtor
  rw [if_pos rfl, if_pos hpid]

/-! ## Copies -/

/-- The parent process with all its `ChildProcess` values. -/
structure Lifetimes where
  /-- `getpid()` -/
  self : Nat
  threads : ObserverState
  /-- the copies in the hands of the user's code, one entry for each -/
  held : List ChildProcess
  /-- the number of calls of `ChildProcess::invalid()` -/
  invalids : Nat
  /-- history: the kills of all destructors -/
  kills : List Kill

inductive LifeLabel where
  | threads (l : ObserverLabel)
  | invalid
  | copy (c : ChildProcess)
  | drop (c : ChildProcess)
deriving DecidableEq

namespace Lifetimes

/-- A call of `add` is in progress, whose argument keeps a copy alive. -/
def InAdd (s : Lifetimes) (c : ChildProcess) : Prop :=
  ∃ i pc, s.threads.adding i = some pc ∧ pc.child = c

/-- The map has an entry for the value. -/
def InMap (s : Lifetimes) (c : ChildProcess) : Prop :=
  ∃ pid, s.threads.observer.children pid = some c

/-- `wait_for` and `add` are called on a value that the caller holds. -/
def Permits (s : Lifetimes) : ObserverLabel → Prop
  | .callAdd _ c => c ∈ s.held
  | .waitFor c _ _ => c ∈ s.held
  | _ => True

/-- The user's copies after a step: a fork returns a new value, and the argument of an
`add` cannot be dropped before the call returns. -/
def heldAfter (s : Lifetimes) : ObserverLabel → List ChildProcess
  | .kernel (.fork pid) => .forked pid s.threads.kernel.forks.length :: s.held
  | .callAdd _ c => s.held.erase c
  | .add i (.ret _) =>
    match s.threads.adding i with
    | some pc => pc.child :: s.held
    | none => s.held
  | _ => s.held

/-- The step destroys the last copy of this value: the user drops it, or `add` or
`on_sig_child` erases the entry of the map, and there is no other. -/
inductive LastCopy (s : Lifetimes) : LifeLabel → ChildProcess → Prop where
  | drop {c} (hheld : s.held.count c = 1) (hmap : ¬ s.InMap c) (hadd : ¬ s.InAdd c) :
      LastCopy s (.drop c) c
  | addErase {i d c} (hpc : s.threads.adding i = some (.emitted d))
      (hmap : s.threads.observer.children d.pid = some c)
      (hother : ∀ pid, s.threads.observer.children pid = some c → pid = d.pid)
      (hheld : c ∉ s.held) (hadd : ¬ s.InAdd c) : LastCopy s (.threads (.add i .erase)) c
  | oscErase {i pid d c} (hpc : s.threads.handling i = some (.emitted pid d))
      (hmap : s.threads.observer.children pid = some c)
      (hother : ∀ q, s.threads.observer.children q = some c → q = pid)
      (hheld : c ∉ s.held) (hadd : ¬ s.InAdd c) :
      LastCopy s (.threads (.onSigChild i .erase)) c

/-- The kills a step adds: those of the value whose last copy it destroys, if any. -/
inductive Destroys (s : Lifetimes) (l : LifeLabel) : List Kill → Prop where
  | last {c} (h : s.LastCopy l c) : Destroys s l (killsOf s.self s.threads.kernel c)
  | none (h : ∀ c, ¬ s.LastCopy l c) : Destroys s l []

end Lifetimes

/-- The steps of a parent process. A value can be copied as long as it exists: by its
holder, or by a subscriber that gets the observer's. The end of a last copy and the `kill`
of the destructor are one step, at the time of the `kill`: in between nobody has a copy
left to make another from. -/
inductive LifeStep (s : Lifetimes) : LifeLabel → Lifetimes → Prop where
  | threads {l t' kills} (h : ObserverStep s.threads l t') (hargs : s.Permits l)
      (hkills : s.Destroys (.threads l) kills) :
      LifeStep s (.threads l)
        { s with threads := t', held := s.heldAfter l, kills := s.kills ++ kills }
  | invalid :
      LifeStep s .invalid
        { s with held := .invalid s.invalids :: s.held, invalids := s.invalids + 1 }
  | copy {c} (hexists : c ∈ s.held ∨ s.InMap c ∨ s.InAdd c) :
      LifeStep s (.copy c) { s with held := c :: s.held }
  | drop {c kills} (hheld : c ∈ s.held) (hkills : s.Destroys (.drop c) kills) :
      LifeStep s (.drop c) { s with held := s.held.erase c, kills := s.kills ++ kills }

def lifeSystem : LTS Lifetimes LifeLabel where
  step := LifeStep

/-- A parent that holds nothing yet. -/
def Lifetimes.start (self : Nat) (k : Kernel) : Lifetimes :=
  ⟨self, .start k .initial, [], 0, []⟩

/-! ## Which kills are good -/

/-- The value came from a fork whose child has not been reaped. -/
def ChildProcess.Unreaped (k : Kernel) : ChildProcess → Prop
  | .forked _ serial => serial ∉ k.reaped
  | .invalid _ => False

/-- The step does not destroy the last copy of an invalid value, nor of one whose child
has been reaped. -/
def OnlyUnreaped (s : Lifetimes) (l : LifeLabel) : Prop :=
  ∀ c, s.LastCopy l c → c.Unreaped s.threads.kernel

/-- A child owns its pid until it is reaped, and from then on never again. -/
theorem good_iff_unreaped {k : Kernel} (hwf : k.WF) {c : ChildProcess} (hmade : c.Made k) :
    Kill.Good ⟨c, k.slots c.pid⟩ ↔ c.Unreaped k := by
  cases c with
  | forked pid serial =>
    constructor
    · rintro ⟨child, hslot, rfl⟩
      exact (hwf.slot pid child hslot).2
    · intro hr
      exact hwf.slot_of_not_reaped hmade hr
  | invalid n => exact Iff.rfl

namespace Lifetimes

variable {s s' : Lifetimes} {l : LifeLabel}

/-- Every copy is of a value that exists. -/
structure Ok (s : Lifetimes) : Prop where
  sound : s.threads.Sound
  held : ∀ c ∈ s.held, c.Made s.threads.kernel

theorem mem_heldAfter {ol : ObserverLabel} {c : ChildProcess} (h : c ∈ s.heldAfter ol) :
    c ∈ s.held ∨ s.InAdd c ∨
      ∃ pid, ol = .kernel (.fork pid) ∧ c = .forked pid s.threads.kernel.forks.length := by
  unfold heldAfter at h
  split at h
  · rcases List.mem_cons.mp h with rfl | h
    · exact .inr (.inr ⟨_, rfl, rfl⟩)
    · exact .inl h
  · exact .inl (List.mem_of_mem_erase h)
  · split at h
    · rename_i hpc
      rcases List.mem_cons.mp h with rfl | h
      · exact .inr (.inl ⟨_, _, hpc, rfl⟩)
      · exact .inl h
    · exact .inl h
  · exact .inl h

theorem Ok.made_of_inAdd (h : s.Ok) {c : ChildProcess} (hc : s.InAdd c) :
    c.Made s.threads.kernel := by
  obtain ⟨i, pc, hpc, rfl⟩ := hc
  exact h.sound.adding i pc hpc

theorem Ok.made_of_inMap (h : s.Ok) {c : ChildProcess} (hc : s.InMap c) :
    c.Made s.threads.kernel := by
  obtain ⟨pid, hpid⟩ := hc
  exact (h.sound.mapped pid c hpid).2

theorem Ok.step (h : s.Ok) (hstep : LifeStep s l s') : s'.Ok := by
  cases hstep with
  | @threads ol t' kills hthreads hargs hkills =>
    refine ⟨h.sound.step hthreads, fun c hc => ?_⟩
    rcases mem_heldAfter hc with hheld | hadd | ⟨pid, rfl, rfl⟩
    · exact (h.held c hheld).mono hthreads.forksKept
    · exact (h.made_of_inAdd hadd).mono hthreads.forksKept
    · cases hthreads with
      | kernel hk =>
        cases hk with
        | fork => exact List.getElem?_concat_length
  | invalid =>
    refine ⟨h.sound, fun c hc => ?_⟩
    rcases List.mem_cons.mp hc with rfl | hc
    · trivial
    · exact h.held c hc
  | copy hexists =>
    refine ⟨h.sound, fun d hd => ?_⟩
    rcases List.mem_cons.mp hd with rfl | hd
    · rcases hexists with hheld | hmap | hadd
      · exact h.held d hheld
      · exact h.made_of_inMap hmap
      · exact h.made_of_inAdd hadd
    · exact h.held d hd
  | drop => exact ⟨h.sound, fun d hd => h.held d (List.mem_of_mem_erase hd)⟩

theorem LastCopy.made {c : ChildProcess} (hc : s.LastCopy l c) (h : s.Ok) :
    c.Made s.threads.kernel := by
  cases hc with
  | drop hheld =>
    have hpos : 0 < s.held.count c := by omega
    exact h.held c (List.count_pos_iff.mp hpos)
  | addErase _ hmap => exact (h.sound.mapped _ _ hmap).2
  | oscErase _ hmap => exact (h.sound.mapped _ _ hmap).2

/-- A step destroys the last copy of at most one value. -/
theorem LastCopy.unique {c d : ChildProcess} (hc : s.LastCopy l c) (hd : s.LastCopy l d) :
    c = d := by
  cases hc with
  | drop =>
    cases hd with
    | drop => rfl
  | addErase hpc hmap =>
    cases hd with
    | addErase hpc' hmap' =>
      rw [hpc] at hpc'
      cases hpc'
      rw [hmap] at hmap'
      exact Option.some.inj hmap'
  | oscErase hpc hmap =>
    cases hd with
    | oscErase hpc' hmap' =>
      rw [hpc] at hpc'
      cases hpc'
      rw [hmap] at hmap'
      exact Option.some.inj hmap'

/-- The kills of one step: none, or that of the value whose last copy it destroys. -/
theorem step_kills (hstep : LifeStep s l s') :
    (s'.kills = s.kills ∧ ∀ c, ¬ s.LastCopy l c) ∨
      ∃ c, s.LastCopy l c ∧ s'.kills = s.kills ++ [⟨c, s.threads.kernel.slots c.pid⟩] := by
  cases hstep with
  | invalid => exact .inl ⟨rfl, nofun⟩
  | copy => exact .inl ⟨rfl, nofun⟩
  | threads _ _ hkills | drop _ hkills =>
    cases hkills with
    | last hlast => exact .inr ⟨_, hlast, by rw [killsOf_eq]⟩
    | none hnone => exact .inl ⟨List.append_nil _, hnone⟩

/-- One step adds no bad kill exactly when it destroys no last copy it should not. -/
theorem Ok.good_step_iff (h : s.Ok) (hstep : LifeStep s l s') :
    (∀ kill ∈ s'.kills, kill.Good) ↔ (∀ kill ∈ s.kills, kill.Good) ∧ OnlyUnreaped s l := by
  rcases step_kills hstep with ⟨heq, hnone⟩ | ⟨c, hc, heq⟩
  · rw [heq]
    exact ⟨fun hgood => ⟨hgood, fun c hc => absurd hc (hnone c)⟩, fun hgood => hgood.1⟩
  · have honly : OnlyUnreaped s l ↔ c.Unreaped s.threads.kernel :=
      ⟨fun hl => hl c hc, fun hu d hd => hc.unique hd ▸ hu⟩
    rw [heq, honly, ← good_iff_unreaped h.sound.wf (hc.made h)]
    simp only [List.mem_append, List.mem_singleton, or_imp, forall_and, forall_eq]

theorem Ok.start (self : Nat) {k : Kernel} (hk : k.Fresh) : (start self k).Ok :=
  ⟨.start hk, nofun⟩

end Lifetimes

/-- **When the automatic `SIGKILL` hits the right process**: in a run of forks, calls of
`invalid`, copies, drops, `wait_for`, `add` and `on_sig_child`, with pids reused at will,
every kill by a destructor is aimed at the child of the fork that made the value, not yet
reaped, if and only if no step destroys the last copy of an invalid value or of a value
whose child has been reaped. -/
theorem kills_good_iff (self : Nat) (k : Kernel) (hk : k.Fresh) (ls : List LifeLabel)
    (s : Lifetimes) (h : lifeSystem.Run (.start self k) ls s) :
    (∀ kill ∈ s.kills, kill.Good) ↔
      (lifeSystem.restrict OnlyUnreaped).Run (.start self k) ls s := by
  have hok := Lifetimes.Ok.start self hk
  exact h.good_iff_restrict (Q := Lifetimes.Ok) (fun _ _ _ hstep hq => hq.step hstep)
    (fun _ _ _ hstep hq => hq.good_step_iff hstep) hok nofun

/-- A value that is dropped while its child runs. -/
def dropsRunningChild : List LifeLabel := [.threads (.kernel (.fork 5)), .drop (.forked 5 0)]

theorem dropsRunningChild_run :
    ∃ s, lifeSystem.Run (.start 2 .initOnly) dropsRunningChild s ∧
      s.kills = [⟨.forked 5 0, .child ⟨0, true, .running⟩⟩] := by
  refine ⟨_, .cons (.threads (.kernel (.fork (by decide) rfl)) trivial (.none nofun))
    (.cons (.drop (List.mem_singleton_self _) (.last (.drop rfl ?_ ?_))) (.nil _)), rfl⟩
  · exact fun ⟨pid, hpid⟩ => nomatch hpid
  · exact fun ⟨i, pc, hpc, _⟩ => nomatch hpc

theorem kills_good_iff_dropsRunningChild :
    ∃ s, lifeSystem.Run (.start 2 .initOnly) dropsRunningChild s ∧
      s.kills = [⟨.forked 5 0, .child ⟨0, true, .running⟩⟩] ∧
      (lifeSystem.restrict OnlyUnreaped).Run (.start 2 .initOnly) dropsRunningChild s := by
  obtain ⟨s, hrun, hkills⟩ := dropsRunningChild_run
  refine ⟨s, hrun, hkills, (kills_good_iff 2 _ Kernel.initOnly_fresh _ s hrun).mp ?_⟩
  intro kill hkill
  rw [hkills, List.mem_singleton] at hkill
  subst hkill
  exact ⟨_, rfl, rfl⟩

/-- The child ends, `wait_for` reaps it, its pid goes to a stranger, and the value is
dropped. -/
def dropsAfterWaitFor : List LifeLabel :=
  [.threads (.kernel (.fork 5)), .threads (.kernel (.die 5 (.exited 0))),
    .threads (.waitFor (.forked 5 0) ⟨0⟩ (.changed 5 (.terminated (.exited 0)))),
    .threads (.kernel (.arrive 5)), .drop (.forked 5 0)]

/-- The destructor kills the stranger. -/
theorem stranger_killed :
    ∃ s, lifeSystem.Run (.start 2 .initOnly) dropsAfterWaitFor s ∧
      ∃ kill ∈ s.kills, kill = ⟨.forked 5 0, .stranger⟩ ∧ ¬ kill.Good := by
  refine ⟨_, .cons (.threads (.kernel (.fork (by decide) rfl)) trivial (.none nofun))
    (.cons (.threads (.kernel (.die rfl nofun)) trivial (.none nofun))
    (.cons (.threads (.waitFor rfl (.reap rfl rfl rfl)) (List.mem_singleton_self _) (.none nofun))
    (.cons (.threads (.kernel (.arrive rfl)) trivial (.none nofun))
    (.cons (.drop (List.mem_singleton_self _) (.last (.drop rfl ?_ ?_))) (.nil _))))),
    _, List.mem_singleton_self _, rfl, ?_⟩
  · exact fun ⟨pid, hpid⟩ => nomatch hpid
  · exact fun ⟨i, pc, hpc, _⟩ => nomatch hpc
  · rintro ⟨c, hc, -⟩
    cases hc

end ProcessCpp.Core
