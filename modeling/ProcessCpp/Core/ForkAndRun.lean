import ProcessCpp.Base.Prelude
import ProcessCpp.Core.Wait

/-!
# `core::testing::fork_and_run` (fork_and_run.cpp)

`fork_and_run` forks a service and a client, waits for the client, sends
`SIGTERM` to the service, waits for the service, and folds the two wait results
into a bit set. The model follows the two processes from the closure they run to
the bit they leave:

- `MainOutcome` / `forkChild`: what a closure may do inside the child branch of
  `core::posix::fork` (fork.cpp:76–108) and the change of state its parent sees;
- `Scenario`: one call, with both closures, the order of the service's own end
  and the `SIGTERM`, and the answers of every system call on the way;
- `forkAndRun`: the function itself, over `waitFor`.

Both verdicts compare the exit status with `Status::failure` instead of with
`Status::success`. An exit code is cast unchecked into the two-valued `Status`,
so a process that exits with a code other than 0 and 1 is counted as a success:
the bits tell failures from successes exactly for the scenarios in which neither
process does that (`forkAndRun_verdict_iff`).
-/

namespace ProcessCpp.Core

open ProcessCpp.Base ProcessCpp.Posix

/-! ## What a forked closure does -/

/-- The ways the closure handed to `core::posix::fork` can end. -/
inductive MainOutcome where
  /-- `main` returns a status. -/
  | returns (status : Status)
  /-- An exception leaves `main`. -/
  | throws
  /-- `main` calls `exit` or `_exit` itself. -/
  | exits (code : Int)
  /-- A signal ends the process. -/
  | signaled (sig : SigNum) (core : Bool)
  /-- A signal stops the process. -/
  | stopped (sig : SigNum)
deriving DecidableEq

/-- The kernel keeps the low eight bits of the argument of `exit`. -/
def exitCode (n : Int) : Fin 256 := ⟨(n % 256).toNat, by omega⟩

/-- The child branch of `core::posix::fork`: `result` starts as `failure`, an
exception is reported on `std::cerr` and leaves it so, and the process ends in
`::exit(static_cast<int>(result))`. -/
def forkChild : MainOutcome → StateChange
  | .returns status => .terminated (.exited (exitCode status.toInt))
  | .throws => .terminated (.exited (exitCode Status.failure.toInt))
  | .exits code => .terminated (.exited (exitCode code))
  | .signaled sig core => .terminated (.signaled sig core)
  | .stopped sig => .stopped sig

/-- A service and the order of its own end and the `SIGTERM` sent to it. A
process that has ended stays a zombie until it is waited for, so the signal is
then sent without effect; otherwise the service reacts to it. -/
structure ServiceRun where
  own : MainOutcome
  onTerm : MainOutcome
  endsFirst : Bool

/-- The change of state of the service that `wait_for` sees. -/
def ServiceRun.change (s : ServiceRun) : StateChange :=
  forkChild (if s.endsFirst then s.own else s.onTerm)

/-! ## The bit set -/

/-- `core::testing::ForkAndRunResult`. -/
structure ForkAndRunResult where
  bits : UInt32
deriving DecidableEq

namespace ForkAndRunResult

def empty : ForkAndRunResult := ⟨0⟩
def clientFailed : ForkAndRunResult := ⟨1⟩
def serviceFailed : ForkAndRunResult := ⟨2⟩

/-- `operator|`. -/
def or (lhs rhs : ForkAndRunResult) : ForkAndRunResult := ⟨lhs.bits ||| rhs.bits⟩

/-- `operator&`. -/
def and (lhs rhs : ForkAndRunResult) : ForkAndRunResult := ⟨lhs.bits &&& rhs.bits⟩

/-- The bit `b` is set in `r`, tested as the callers do. -/
def Has (r b : ForkAndRunResult) : Prop := r.and b ≠ empty

instance (r b : ForkAndRunResult) : Decidable (r.Has b) := inferInstanceAs (Decidable (_ ≠ _))

end ForkAndRunResult

/-! ## The function -/

/-- One call of `fork_and_run`: the two closures and the answer of every system
call on the way. -/
structure Scenario where
  forkService : Except Errno Int
  forkClient : Except Errno Int
  client : MainOutcome
  service : ServiceRun
  /-- The `waitpid` on the client fails. -/
  waitClient : Option Errno
  /-- The `kill` of the service fails. -/
  kill : Option Errno
  /-- The `waitpid` on the service fails. -/
  waitService : Option Errno
  /-- `fork` returns positive pids to the parent. -/
  service_pos : ∀ p, forkService = .ok p → 0 < p
  client_pos : ∀ p, forkClient = .ok p → 0 < p

/-- The answer of a blocking `waitpid(pid, …, WUNTRACED)` on a child. -/
def waitAnswer (pid : Int) (fails : Option Errno) (c : StateChange) : Except Errno (Int × Nat) :=
  match fails with
  | some e => .error e
  | none => .ok (pid, c.word)

/-- The two switches of `fork_and_run`, which differ only in the bit they set. -/
def judge (failed result : ForkAndRunResult) (r : Wait.Result) : ForkAndRunResult :=
  match r.status with
  | .exited => if r.detail.ifExitedStatus = some Status.failure then result.or failed else result
  | _ => result.or failed

/-- `send_signal_or_throw(Signal::sig_term)` on the service. -/
def killAnswer (fails : Option Errno) : Except Errno Unit :=
  match fails with
  | some e => .error e
  | none => .ok ()

/-- `core::testing::fork_and_run`. -/
def forkAndRun (sc : Scenario) : Except Errno ForkAndRunResult := do
  let serviceProcess ← sc.forkService
  let clientProcess ← sc.forkClient
  let clientResult ← waitFor (waitAnswer clientProcess sc.waitClient (forkChild sc.client))
  let result := judge .clientFailed .empty clientResult
  killAnswer sc.kill
  let serviceResult ← waitFor (waitAnswer serviceProcess sc.waitService sc.service.change)
  return judge .serviceFailed result serviceResult

/-! ## The verdicts -/

/-- The process exited with `exit::Status::success`. -/
def Succeeded (c : StateChange) : Prop := c = .terminated (.exited 0)

instance (c : StateChange) : Decidable (Succeeded c) := inferInstanceAs (Decidable (_ = _))

/-- The process exited with a code that is neither `success` nor `failure`. -/
def OddExit (c : StateChange) : Prop := ∃ code, c = .terminated (.exited code) ∧ 1 < code.val

/-- What `judge` tests: anything but an exit, or an exit with `failure`. -/
def CountedFailed (c : StateChange) : Prop := ∀ code, c = .terminated (.exited code) → code.val = 1

theorem countedFailed_exited (code : Fin 256) :
    CountedFailed (.terminated (.exited code)) ↔ code.val = 1 := by
  constructor
  · intro h
    exact h code rfl
  · intro h code' hc
    injection hc with hc
    injection hc with hc
    rw [← hc]
    exact h

theorem judge_ofStateChange (failed result : ForkAndRunResult) (c : StateChange) :
    (CountedFailed c → judge failed result (Wait.ofStateChange c) = result.or failed) ∧
      (¬ CountedFailed c → judge failed result (Wait.ofStateChange c) = result) := by
  cases c with
  | terminated t =>
    cases t with
    | exited code =>
      have hcast : (Status.mk (code.val : Int) = Status.failure) ↔ code.val = 1 := by
        rw [Status.failure, Status.mk.injEq]
        omega
      rw [countedFailed_exited]
      simp only [judge, Wait.ofStateChange, Wait.Detail.ifExitedStatus, Option.some.injEq, hcast]
      exact ⟨fun h => if_pos h, fun h => if_neg h⟩
    | signaled sig core =>
      exact ⟨fun _ => rfl, fun h => absurd (fun _ hc => by cases hc) h⟩
  | stopped sig => exact ⟨fun _ => rfl, fun h => absurd (fun _ hc => by cases hc) h⟩
  | continued => exact ⟨fun _ => rfl, fun h => absurd (fun _ hc => by cases hc) h⟩

/-- The verdict on one process is right exactly when it does not exit with an
odd code. -/
theorem countedFailed_iff_oddExit (c : StateChange) :
    (CountedFailed c ↔ ¬ Succeeded c) ↔ ¬ OddExit c := by
  by_cases hc : ∃ code, c = .terminated (.exited code)
  · obtain ⟨code, rfl⟩ := hc
    have h₁ : Succeeded (.terminated (.exited code)) ↔ code.val = 0 := by
      rw [Succeeded, StateChange.terminated.injEq, Termination.exited.injEq, Fin.ext_iff]
      rfl
    have h₂ : OddExit (.terminated (.exited code)) ↔ 1 < code.val := by
      constructor
      · rintro ⟨code', hc, h⟩
        injection hc with hc
        injection hc with hc
        rw [hc]
        exact h
      · intro h
        exact ⟨code, rfl, h⟩
    rw [countedFailed_exited, h₁, h₂]
    omega
  · have h₁ : CountedFailed c := fun code h => absurd ⟨code, h⟩ hc
    have h₂ : ¬ Succeeded c := fun h => hc ⟨0, h⟩
    have h₃ : ¬ OddExit c := fun ⟨code, h, _⟩ => hc ⟨code, h⟩
    simp [h₁, h₂, h₃]

/-- A wait on a child with a positive pid that returned, reported its change of
state. -/
theorem waitFor_waitAnswer {pid : Int} (hpid : 0 < pid) {fails : Option Errno}
    {c : StateChange} {r : Wait.Result} (h : waitFor (waitAnswer pid fails c) = .ok r) :
    r = Wait.ofStateChange c := by
  cases fails with
  | some e => cases h
  | none =>
    rw [waitAnswer, waitFor_stateChange (by omega)] at h
    cases h
    rfl

/-- A call that returns got through all its system calls, and its result is the
two verdicts one after the other. -/
theorem forkAndRun_eq {sc : Scenario} {r : ForkAndRunResult} (h : forkAndRun sc = .ok r) :
    r = judge .serviceFailed (judge .clientFailed .empty (Wait.ofStateChange (forkChild sc.client)))
      (Wait.ofStateChange sc.service.change) := by
  rw [forkAndRun, bind_eq_ok] at h
  obtain ⟨servicePid, hservice, h⟩ := h
  rw [bind_eq_ok] at h
  obtain ⟨clientPid, hclient, h⟩ := h
  rw [bind_eq_ok] at h
  obtain ⟨clientResult, hwaitClient, h⟩ := h
  rw [bind_eq_ok] at h
  obtain ⟨-, -, h⟩ := h
  rw [bind_eq_ok] at h
  obtain ⟨serviceResult, hwaitService, h⟩ := h
  rw [pure_eq_ok] at h
  rw [← h, waitFor_waitAnswer (sc.client_pos clientPid hclient) hwaitClient,
    waitFor_waitAnswer (sc.service_pos servicePid hservice) hwaitService]

/-- Each bit of the result is the verdict on its own process, whatever the other
process did. -/
theorem forkAndRun_bits {sc : Scenario} {r : ForkAndRunResult} (h : forkAndRun sc = .ok r) :
    (r.Has .clientFailed ↔ CountedFailed (forkChild sc.client)) ∧
      (r.Has .serviceFailed ↔ CountedFailed sc.service.change) := by
  rw [forkAndRun_eq h]
  obtain ⟨hc₁, hc₂⟩ := judge_ofStateChange .clientFailed .empty (forkChild sc.client)
  by_cases hc : CountedFailed (forkChild sc.client)
  · rw [hc₁ hc]
    obtain ⟨hs₁, hs₂⟩ := judge_ofStateChange .serviceFailed
      (ForkAndRunResult.empty.or .clientFailed) sc.service.change
    by_cases hs : CountedFailed sc.service.change
    · rw [hs₁ hs]
      simp only [hc, hs, iff_true]
      decide
    · rw [hs₂ hs]
      simp only [hc, hs, iff_true, iff_false]
      decide
  · rw [hc₂ hc]
    obtain ⟨hs₁, hs₂⟩ := judge_ofStateChange .serviceFailed .empty sc.service.change
    by_cases hs : CountedFailed sc.service.change
    · rw [hs₁ hs]
      simp only [hc, hs, iff_true, iff_false]
      decide
    · rw [hs₂ hs]
      simp only [hc, hs, iff_false]
      decide

/-- The bits of a result tell failure from success for both processes. -/
def TellsFailures (sc : Scenario) (r : ForkAndRunResult) : Prop :=
  (r.Has .clientFailed ↔ ¬ Succeeded (forkChild sc.client)) ∧
    (r.Has .serviceFailed ↔ ¬ Succeeded sc.service.change)

/-- **Exactness of the verdicts**: a returned result tells failure from success
for both processes, independently of each other, if and only if neither of them
exits with a code other than 0 and 1. -/
theorem forkAndRun_verdict_iff (sc : Scenario) (r : ForkAndRunResult)
    (h : forkAndRun sc = .ok r) :
    TellsFailures sc r ↔ ¬ OddExit (forkChild sc.client) ∧ ¬ OddExit sc.service.change := by
  obtain ⟨hc, hs⟩ := forkAndRun_bits h
  rw [TellsFailures, hc, hs, countedFailed_iff_oddExit, countedFailed_iff_oddExit]

/-- A scenario in which every system call succeeds. -/
def Scenario.quiet (client own : MainOutcome) : Scenario where
  forkService := .ok 100
  forkClient := .ok 101
  client := client
  service := { own := own, onTerm := .signaled .sigTerm false, endsFirst := true }
  waitClient := none
  kill := none
  waitService := none
  service_pos := by
    intro p hp
    cases hp
    decide
  client_pos := by
    intro p hp
    cases hp
    decide

theorem forkAndRun_verdict_iff_throwing_client :
    TellsFailures (.quiet .throws (.returns .success)) ⟨1⟩ ↔
      ¬ OddExit (forkChild .throws) ∧ ¬ OddExit (forkChild (.returns .success)) :=
  forkAndRun_verdict_iff (.quiet .throws (.returns .success)) ⟨1⟩ rfl

/-- A client that exits with code 2 is reported as a success. -/
theorem forkAndRun_exit_two_counted_success :
    forkAndRun (.quiet (.exits 2) (.returns .success)) = .ok .empty ∧
      ¬ TellsFailures (.quiet (.exits 2) (.returns .success)) .empty := by
  refine ⟨rfl, ?_⟩
  rintro ⟨hc, -⟩
  exact absurd (hc.mpr (by decide)) (by decide)

end ProcessCpp.Core
