import ProcessCpp.Posix.Basic

/-!
# Signals, exit statuses and `ChildProcess::wait_for`

The enumerations of `signal.h`, `exit.h` and `wait.h` and the decoding half of
`ChildProcess::wait_for` (child_process.cpp:345–380).

`core::posix::Signal` and `exit::Status` are scoped enumerations over `int`, so
a cast from any integer is defined and yields a value that need not be one of
the enumerators. They are modelled as integers with named constants: which
values compare equal to `Status::failure` is exactly what is at stake further up
(`Core/ForkAndRun.lean`).
-/

namespace ProcessCpp.Core

open ProcessCpp.Posix

/-- `core::posix::Signal`. -/
structure Signal where
  toInt : Int
deriving DecidableEq, Repr

namespace Signal

def sigKill : Signal := ⟨9⟩
def sigChld : Signal := ⟨17⟩

end Signal

/-- `core::posix::exit::Status`. -/
structure Status where
  toInt : Int
deriving DecidableEq, Repr

namespace Status

def success : Status := ⟨0⟩
def failure : Status := ⟨1⟩

end Status

namespace Wait

/-- `wait::Flags`, the options handed to `waitpid(2)`. -/
structure Flags where
  bits : UInt8
deriving DecidableEq, Repr

namespace Flags

def untraced : Flags := ⟨2⟩
def continued : Flags := ⟨8⟩

end Flags

/-- `wait::Result::Status`. -/
inductive ResultStatus where
  | undefined
  | noStateChange
  | exited
  | signaled
  | stopped
  | continued
deriving DecidableEq, Repr

/-- The union `wait::Result::detail`: the member last written, if any. -/
inductive Detail where
  | unset
  | ifExited (status : Core.Status)
  | ifSignaled (signal : Signal) (coreDumped : Bool)
  | ifStopped (signal : Signal)
deriving DecidableEq, Repr

/-- `detail.if_exited.status`; reading it is meaningful only while `if_exited`
is the active member. -/
def Detail.ifExitedStatus : Detail → Option Core.Status
  | .ifExited s => some s
  | _ => none

/-- `wait::Result`. -/
structure Result where
  status : ResultStatus := .undefined
  detail : Detail := .unset
deriving DecidableEq, Repr

/-- The tests of `wait_for` on a status word, in the source's order. -/
def decode (status : Nat) : Result :=
  if wifexited status then
    { status := .exited, detail := .ifExited ⟨wexitstatus status⟩ }
  else if wifsignaled status then
    { status := .signaled, detail := .ifSignaled ⟨wtermsig status⟩ (wcoredump status) }
  else if wifstopped status then
    { status := .stopped, detail := .ifStopped ⟨wstopsig status⟩ }
  else if wifcontinued status then
    { status := .continued }
  else
    {}

end Wait

/-- `ChildProcess::wait_for`, as a function of the answer of
`::waitpid(pid(), &status, flags)`: an error number, or the returned pid with
the status word. -/
def waitFor (answer : Except Errno (Int × Nat)) : Except Errno Wait.Result :=
  match answer with
  | .error e => .error e
  | .ok (resultPid, status) =>
    if resultPid = 0 then .ok { status := .noStateChange } else .ok (Wait.decode status)

namespace Wait

/-- What `wait_for` should report for each change of state. -/
def ofStateChange : StateChange → Result
  | .terminated (.exited code) => { status := .exited, detail := .ifExited ⟨code.val⟩ }
  | .terminated (.signaled sig core) =>
    { status := .signaled, detail := .ifSignaled ⟨sig.val⟩ core }
  | .stopped sig => { status := .stopped, detail := .ifStopped ⟨sig.val⟩ }
  | .continued => { status := .continued }

/-- The decoder inverts the kernel's encoding of every change of state. -/
theorem decode_word (c : StateChange) : decode c.word = ofStateChange c := by
  cases c with
  | terminated t =>
    cases t with
    | exited code => simp [decode, ofStateChange, StateChange.word]
    | signaled sig core => simp [decode, ofStateChange, StateChange.word]
  | stopped sig => simp [decode, ofStateChange]
  | continued => rfl

end Wait

/-- `wait_for` on a child that changed state reports exactly that change. -/
theorem waitFor_stateChange {pid : Int} (hpid : pid ≠ 0) (c : StateChange) :
    waitFor (.ok (pid, c.word)) = .ok (Wait.ofStateChange c) := by
  rw [waitFor, if_neg hpid, Wait.decode_word]

end ProcessCpp.Core
