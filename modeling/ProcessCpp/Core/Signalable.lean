import ProcessCpp.Posix.Kill
import ProcessCpp.Core.Wait

/-!
# Signalable objects: processes and process groups

`Signalable` (signalable.cpp), `Process` (process.cpp) and `ProcessGroup`
(process_group.cpp). A `Signalable` carries the number it hands to `kill(2)`;
`pid()` and `id()` are stored separately, in the classes derived from it.

- `Obtained x d`: `x` can be obtained through the public interface, and `d` says
  what it denotes: a process, a group, or nobody for invalid objects and objects
  that come from a failed query;
- `Signalable.SendsExactly`: both ways of sending a signal report an error and
  deliver nothing, or deliver to exactly what is denoted;
- `sendsExactly_iff`: when that is so. The numbers `0`, `1` and `-1` are where it
  goes wrong: an invalid process has the target `0`, an invalid child and a group
  from a failed query have `1`, and the groups `1` and `0` become the targets `-1`
  and `0`.
-/

namespace ProcessCpp.Core

open ProcessCpp.Posix

/-! ## The classes -/

/-- `Signalable::Private::pid`, the number handed to `kill`. -/
structure Signalable where
  target : Int
deriving DecidableEq, Repr

namespace Signalable

variable (x : Signalable) (t : ProcTable) (signal : Signal) (refusal : Option Errno)

/-- `Signalable::send_signal_or_throw`, with the processes it reached. -/
def sendSignalOrThrow : Except Exception Unit × List Proc :=
  match t.kill x.target signal.toInt refusal with
  | .error errno => (.error (.systemError errno), [])
  | .ok delivered => (.ok (), delivered)

/-- `Signalable::send_signal`: what is in the caller's `error_code` afterwards, and
the processes it reached. -/
def sendSignal (e : ErrorCode) : ErrorCode × List Proc :=
  match t.kill x.target signal.toInt refusal with
  | .error errno => (some errno, [])
  | .ok delivered => (e, delivered)

end Signalable

/-- `core::posix::Process`. -/
structure Process extends Signalable where
  pid : Int
deriving DecidableEq, Repr

/-- `core::posix::ProcessGroup`. -/
structure ProcessGroup extends Signalable where
  id : Int
deriving DecidableEq, Repr

/-- `ProcessGroup::ProcessGroup`. -/
def ProcessGroup.ctor (id : Int) : ProcessGroup where
  target := -id
  id := id

namespace Process

/-- `Process::Process`. -/
def ctor (pid : Int) : Except Exception Process :=
  if pid < 0 then .error (.runtimeError "Cannot construct instance for invalid pid.".toList)
  else .ok { target := pid, pid := pid }

/-- `Process::invalid`: `p.d->pid = -1` changes what `pid()` returns, not the target
of the base class. -/
def invalid : Except Exception Process := do
  let p ← ctor 0
  return { p with pid := -1 }

variable (p : Process) (t : ProcTable) (refusal : Option Errno)

/-- `Process::process_group_or_throw`. -/
def processGroupOrThrow : Except Exception ProcessGroup :=
  match t.getpgid p.pid refusal with
  | .error errno => .error (.systemError errno)
  | .ok pgid => .ok (ProcessGroup.ctor pgid)

/-- `Process::process_group`. A failed query leaves the `-1` of `getpgid`. -/
def processGroup (se : ErrorCode) : ErrorCode × ProcessGroup :=
  match t.getpgid p.pid refusal with
  | .error errno => (some errno, ProcessGroup.ctor (-1))
  | .ok pgid => (se, ProcessGroup.ctor pgid)

end Process

/-- The pid `ChildProcess::invalid` hands to its base class. -/
def invalidChildPid : Int := 1

/-! ## What an object denotes -/

/-- What a signalable object stands for. -/
inductive Referent where
  | process (pid : Int)
  | group (id : Int)
  | nobody
deriving DecidableEq

/-- The process belongs to what is denoted. -/
def Referent.Includes : Referent → Proc → Prop
  | .process pid, p => p.pid = pid
  | .group id, p => p.pgid = id
  | .nobody, _ => False

/-- The processes that can be obtained: `Process(pid)`, `Process::invalid()`, the
`Process` part of a child that `fork` returned, and that of
`ChildProcess::invalid()`. -/
inductive ObtainedProcess : Process → Referent → Prop where
  | process {pid : Int} {p : Process} :
      0 < pid → Process.ctor pid = .ok p → ObtainedProcess p (.process p.pid)
  | invalid {p : Process} : Process.invalid = .ok p → ObtainedProcess p .nobody
  | child {pid : Int} {p : Process} :
      0 < pid → Process.ctor pid = .ok p → ObtainedProcess p (.process p.pid)
  | invalidChild {p : Process} : Process.ctor invalidChildPid = .ok p → ObtainedProcess p .nobody

/-- The signalable objects that can be obtained: a process, or the group of one,
queried against any earlier process table. -/
inductive Obtained : Signalable → Referent → Prop where
  | process {p : Process} {d : Referent} : ObtainedProcess p d → Obtained p.toSignalable d
  | groupOrThrow {p : Process} {d : Referent} {t : ProcTable} {refusal : Option Errno}
      {g : ProcessGroup} : ObtainedProcess p d → p.processGroupOrThrow t refusal = .ok g →
      Obtained g.toSignalable (.group g.id)
  | group {p : Process} {d : Referent} {t : ProcTable} {refusal : Option Errno} {pgid : Int}
      (se : ErrorCode) : ObtainedProcess p d → t.getpgid p.pid refusal = .ok pgid →
      Obtained (p.processGroup t refusal se).2.toSignalable
        (.group (p.processGroup t refusal se).2.id)
  | failedGroup {p : Process} {d : Referent} {t : ProcTable} {refusal : Option Errno}
      {errno : Errno} (se : ErrorCode) : ObtainedProcess p d →
      t.getpgid p.pid refusal = .error errno →
      Obtained (p.processGroup t refusal se).2.toSignalable .nobody

/-- An error is reported and nothing delivered, or the signal is delivered to
exactly what is denoted. -/
def Referent.Reached (d : Referent) (t : ProcTable) (reported : Prop)
    (delivered : List Proc) : Prop :=
  (reported ∧ delivered = []) ∨ ∀ p, p ∈ delivered ↔ p ∈ t.procs ∧ d.Includes p

/-- Both overloads reach exactly what the object denotes. -/
def Signalable.SendsExactly (x : Signalable) (d : Referent) (t : ProcTable) (sig : SigNum)
    (refusal : Option Errno) (e : ErrorCode) : Prop :=
  d.Reached t (∃ ex, (x.sendSignalOrThrow t ⟨sig.val⟩ refusal).1 = .error ex)
    (x.sendSignalOrThrow t ⟨sig.val⟩ refusal).2 ∧
  d.Reached t ((x.sendSignal t ⟨sig.val⟩ refusal e).1 ≠ none)
    (x.sendSignal t ⟨sig.val⟩ refusal e).2

/-- `kill` is refused, or there is nobody it addresses. -/
def Signalable.Refused (x : Signalable) (t : ProcTable) (refusal : Option Errno) : Prop :=
  refusal ≠ none ∨ ∀ p ∈ t.procs, t.addressed x.target p = false

/-- The referents `kill` can express in this process table: every process; every
group but `0` and `1`; group `1` if it is just what the caller may signal, group `0`
if the caller is in it. -/
def Referent.Expressible (t : ProcTable) : Referent → Prop
  | .process _ => True
  | .group id => 1 < id ∨ (id = 1 ∧ ∀ p ∈ t.procs, p.signalable = true ↔ p.pgid = 1) ∨
      (id = 0 ∧ t.caller.pgid = 0)
  | .nobody => False

/-! ## Targets -/

theorem Process.ctor_eq_ok {pid : Int} {p : Process} (h : Process.ctor pid = .ok p) :
    p.target = pid ∧ p.pid = pid := by
  unfold Process.ctor at h
  split at h
  · cases h
  · cases h
    exact ⟨rfl, rfl⟩

/-- What the target of an obtained object is, by what it denotes. -/
def Referent.HasTarget (target : Int) : Referent → Prop
  | .process pid => 0 < pid ∧ target = pid
  | .group id => 0 ≤ id ∧ target = -id
  | .nobody => target = 0 ∨ target = 1

theorem ObtainedProcess.hasTarget {p : Process} {d : Referent} (h : ObtainedProcess p d) :
    d.HasTarget p.target := by
  cases h with
  | process hpid hp =>
    obtain ⟨htarget, hpid'⟩ := Process.ctor_eq_ok hp
    exact ⟨by omega, by omega⟩
  | child hpid hp =>
    obtain ⟨htarget, hpid'⟩ := Process.ctor_eq_ok hp
    exact ⟨by omega, by omega⟩
  | invalid hp =>
    cases hp
    exact .inl rfl
  | invalidChild hp => exact .inr (Process.ctor_eq_ok hp).1

theorem Obtained.hasTarget {x : Signalable} {d : Referent} (h : Obtained x d) :
    d.HasTarget x.target := by
  cases h with
  | process hp => exact hp.hasTarget
  | @groupOrThrow p _ t refusal g hp hg =>
    unfold Process.processGroupOrThrow at hg
    cases hq : t.getpgid p.pid refusal with
    | error errno =>
      rw [hq] at hg
      cases hg
    | ok pgid =>
      rw [hq] at hg
      cases hg
      exact ⟨ProcTable.getpgid_nonneg hq, rfl⟩
  | group se hp hq =>
    simp only [Process.processGroup, hq]
    exact ⟨ProcTable.getpgid_nonneg hq, rfl⟩
  | failedGroup se hp hq =>
    simp only [Process.processGroup, hq]
    exact .inr rfl

/-- Where a call addresses somebody, it addresses exactly what the object denotes if
and only if the referent is expressible. -/
theorem addressed_iff_includes {t : ProcTable} {target : Int} {d : Referent}
    (htarget : d.HasTarget target) (hsome : ∃ p ∈ t.procs, t.addressed target p = true) :
    (∀ p ∈ t.procs, t.addressed target p = true ↔ d.Includes p) ↔ d.Expressible t := by
  cases d with
  | process pid =>
    obtain ⟨hpos, rfl⟩ := htarget
    exact ⟨fun _ => trivial, fun _ p _ => t.addressed_process hpos p⟩
  | nobody =>
    obtain ⟨p, hp, haddr⟩ := hsome
    exact ⟨fun hall => (hall p hp).mp haddr, False.elim⟩
  | group id =>
    obtain ⟨hnonneg, rfl⟩ := htarget
    -- kill's four cases, of which a group can meet three
    by_cases hzero : id = 0
    · subst hzero
      have hown : ∀ p, t.addressed (-0) p = true ↔ p.pgid = t.caller.pgid := t.addressed_ownGroup
      constructor
      · intro hall
        have hcaller := (hall _ t.caller_mem).mp ((hown _).mpr rfl)
        exact .inr (.inr ⟨rfl, hcaller⟩)
      · rintro (hbig | ⟨hone, -⟩ | ⟨-, hcaller⟩) p -
        · omega
        · omega
        · rw [hown, hcaller, Referent.Includes]
    · by_cases hone : id = 1
      · subst hone
        constructor
        · intro hexact
          refine .inr (.inl ⟨rfl, fun p hp => ?_⟩)
          rw [← t.addressed_everybody p]
          exact hexact p hp
        · rintro (hbig | ⟨-, hexact⟩ | ⟨hzero', -⟩) p hp
          · omega
          · rw [t.addressed_everybody p]
            exact hexact p hp
          · omega
      · have hbig : 1 < id := by omega
        exact ⟨fun _ => .inl hbig, fun _ p _ => t.addressed_group hbig p⟩

/-! ## Sending -/

/-- Sending a signal through an object that can be obtained reaches exactly what the object
denotes if and only if the call is refused or the referent is expressible. The signals are the
numbers 1 to 64: `Signal::unknown` is the null signal, which nobody gets. -/
theorem sendsExactly_iff {x : Signalable} {d : Referent} (h : Obtained x d) (t : ProcTable)
    (sig : SigNum) (refusal : Option Errno) (e : ErrorCode) :
    x.SendsExactly d t sig refusal e ↔ x.Refused t refusal ∨ d.Expressible t := by
  unfold Signalable.SendsExactly Signalable.sendSignalOrThrow Signalable.sendSignal
  rcases t.kill_cases x.target sig refusal with ⟨hrefused, errno, hkill⟩ | ⟨hnone, hsome, hkill⟩
  · refine ⟨fun _ => .inl hrefused, fun _ => ?_⟩
    rw [hkill]
    exact ⟨.inl ⟨⟨_, rfl⟩, rfl⟩, .inl ⟨nofun, rfl⟩⟩
  · have hnotRefused : ¬ x.Refused t refusal := by
      rintro (hne | hnobody)
      · exact hne hnone
      · obtain ⟨p, hp, haddr⟩ := hsome
        rw [hnobody p hp] at haddr
        cases haddr
    have hnotNil : t.procs.filter (t.addressed x.target) ≠ [] := by
      obtain ⟨p, hp, haddr⟩ := hsome
      exact List.ne_nil_of_mem (List.mem_filter.mpr ⟨hp, haddr⟩)
    have hreached : ∀ reported,
        d.Reached t reported (t.procs.filter (t.addressed x.target)) ↔ d.Expressible t := by
      intro reported
      rw [← addressed_iff_includes h.hasTarget hsome]
      constructor
      · rintro (⟨-, hnil⟩ | hexact) p hp
        · exact absurd hnil hnotNil
        · simpa [hp] using hexact p
      · intro hexact
        refine .inr fun p => ?_
        rw [List.mem_filter]
        exact and_congr_right fun hp => hexact p hp
    rw [hkill]
    simp only [hreached, and_self, hnotRefused, false_or]

/-- A process alone in its group and in the table. -/
def loneProcess : Proc := ⟨7, 7, true⟩

def loneTable : ProcTable where
  procs := [loneProcess]
  caller := loneProcess
  caller_mem := by decide
  pid_pos := by decide
  pid_inj := by decide
  pgid_nonneg := by decide

def sigTermNum : SigNum := .sigTerm

theorem sendsExactly_iff_lone_process :
    Obtained (⟨7⟩ : Signalable) (.process 7) ∧
      ((⟨7⟩ : Signalable).SendsExactly (.process 7) loneTable sigTermNum none none ↔
        (⟨7⟩ : Signalable).Refused loneTable none ∨
          (Referent.process 7).Expressible loneTable) := by
  have hlone : Obtained (⟨7⟩ : Signalable) (.process 7) :=
    .process (p := ⟨⟨7⟩, 7⟩) (@ObtainedProcess.process 7 _ (by decide) rfl)
  exact ⟨hlone, sendsExactly_iff hlone loneTable sigTermNum none none⟩

/-- `Process::invalid()` denotes nobody, and a signal sent through it reaches the
caller. -/
theorem invalid_process_signals_caller :
    ∃ p, Process.invalid = .ok p ∧ Obtained p.toSignalable .nobody ∧
      ¬ p.toSignalable.SendsExactly .nobody loneTable sigTermNum none none := by
  refine ⟨⟨⟨0⟩, -1⟩, rfl, .process (.invalid rfl), ?_⟩
  rintro ⟨hthrow, -⟩
  rcases hthrow with ⟨-, hnil⟩ | hexact
  · exact absurd hnil (by decide)
  · exact ((hexact loneProcess).mp (by decide)).2

end ProcessCpp.Core
