/-!
# Error numbers, signal numbers and wait status words

What the operating system hands to the library, independent of any one module
of it:

- `Errno`: the error numbers the library looks at (`ECHILD`, `EINTR`) or passes
  on inside a `std::system_error`; every other number is `other`.
- `ErrorCode` and `Exception`: a `std::error_code` a caller hands in, and what
  the library throws.
- `SigNum`: a number that is a signal, `1 … 64`.
- `Termination` / `StateChange`: the ways a child's state can change, and
  `StateChange.word`, the status word `waitpid(2)` stores for each of them.
- the decoding macros of `<sys/wait.h>` (`wifexited` … `wcoredump`), translated
  literally from their bit tests, and the lemmas saying that exactly one of them
  recognises each status word and recovers what was encoded.
-/

namespace ProcessCpp.Posix

/-- The values of `errno`. -/
inductive Errno where
  | eperm
  | esrch
  | eintr
  | eagain
  | enomem
  | echild
  | einval
  | emfile
  | ebadf
  | other (n : Nat)
deriving DecidableEq, Repr

/-- A `std::error_code`: cleared, or an `errno` in the system category. -/
abbrev ErrorCode : Type := Option Errno

/-- `std::system_error` with its code, or `std::runtime_error` or `std::logic_error`
with its text. -/
inductive Exception where
  | systemError (code : Errno)
  | runtimeError (what : List Char)
  | logicError (what : List Char)
deriving DecidableEq, Repr

/-- A signal number: `1 … 64` on Linux (`0` is the null signal, not a signal). -/
def SigNum : Type := { n : Nat // 1 ≤ n ∧ n ≤ 64 }

instance : DecidableEq SigNum := inferInstanceAs (DecidableEq { n : Nat // 1 ≤ n ∧ n ≤ 64 })

/-- `SIGTERM`. -/
def SigNum.sigTerm : SigNum := ⟨15, by decide⟩

/-- An exit code is a byte, and `0` is one. -/
instance exitCode_neZero : @NeZero Nat Zero.ofOfNat0 256 := ⟨by decide⟩

/-- How a process can end: `exit` with the low eight bits of its argument, or a
signal, with or without a core dump. -/
inductive Termination where
  | exited (code : Fin 256)
  | signaled (sig : SigNum) (core : Bool)
deriving DecidableEq

/-- A change of state of a child that `waitpid(2)` can report. -/
inductive StateChange where
  | terminated (t : Termination)
  | stopped (sig : SigNum)
  | continued
deriving DecidableEq

/-- The status word of an ended child: the exit code in bits 8–15, or the
signal in bits 0–6 with the core flag in bit 7. -/
def Termination.word : Termination → Nat
  | .exited code => code.val <<< 8
  | .signaled sig core => sig.val ||| (if core then 0x80 else 0)

/-- The status word `waitpid(2)` stores: a stop puts its signal in bits 8–15
over the mark `0x7f`, a continuation is `0xffff`. -/
def StateChange.word : StateChange → Nat
  | .terminated t => t.word
  | .stopped sig => (sig.val <<< 8) ||| 0x7f
  | .continued => 0xffff

/-! ## The macros of `<sys/wait.h>` -/

/-- `WTERMSIG`. -/
def wtermsig (status : Nat) : Nat := status &&& 0x7f

/-- `WEXITSTATUS`. -/
def wexitstatus (status : Nat) : Nat := (status &&& 0xff00) >>> 8

/-- `WSTOPSIG` is `WEXITSTATUS`. -/
def wstopsig (status : Nat) : Nat := wexitstatus status

/-- `WIFEXITED`. -/
def wifexited (status : Nat) : Bool := wtermsig status == 0

/-- Conversion to `signed char`. -/
def signedChar (n : Nat) : Int :=
  if n % 256 < 128 then (n % 256 : Nat) else (n % 256 : Nat) - 256

/-- `WIFSIGNALED`: `((signed char) ((status & 0x7f) + 1) >> 1) > 0`. The cast
sends the stop mark `0x7f` to a negative number. -/
def wifsignaled (status : Nat) : Bool := decide (0 < signedChar (wtermsig status + 1) >>> (1 : Nat))

/-- `WIFSTOPPED`. -/
def wifstopped (status : Nat) : Bool := (status &&& 0xff) == 0x7f

/-- `WIFCONTINUED`. -/
def wifcontinued (status : Nat) : Bool := status == 0xffff

/-- `WCOREDUMP`. -/
def wcoredump (status : Nat) : Bool := (status &&& 0x80) != 0

/-! ## Decoding inverts encoding -/

theorem wtermsig_eq_mod (status : Nat) : wtermsig status = status % 128 :=
  Nat.and_two_pow_sub_one_eq_mod status 7

theorem wexitstatus_eq_div (status : Nat) : wexitstatus status = status / 256 % 256 := by
  have h : (0xff00 : Nat) >>> 8 = 2 ^ 8 - 1 := rfl
  rw [wexitstatus, Nat.shiftRight_and_distrib, h, Nat.and_two_pow_sub_one_eq_mod,
    Nat.shiftRight_eq_div_pow]

@[simp] theorem wifexited_exited (code : Fin 256) :
    wifexited (Termination.exited code).word = true := by
  rw [wifexited, wtermsig_eq_mod, Termination.word, Nat.shiftLeft_eq, beq_iff_eq]
  omega

@[simp] theorem wexitstatus_exited (code : Fin 256) :
    wexitstatus (Termination.exited code).word = code.val := by
  rw [wexitstatus_eq_div, Termination.word, Nat.shiftLeft_eq]
  omega

/-- Statements about a signal number are statements about `1 … 64`. -/
theorem SigNum.forall_of_fin {P : SigNum → Prop}
    (h : ∀ i : Fin 64, P ⟨i.val + 1, by omega, by omega⟩) : ∀ s, P s := by
  rintro ⟨n, hn⟩
  have := h ⟨n - 1, by omega⟩
  have hn' : n - 1 + 1 = n := by omega
  simpa only [hn'] using this

@[simp] theorem wifexited_signaled (sig : SigNum) (core : Bool) :
    wifexited (Termination.signaled sig core).word = false := by
  revert sig core
  exact SigNum.forall_of_fin (by decide)

@[simp] theorem wifsignaled_signaled (sig : SigNum) (core : Bool) :
    wifsignaled (Termination.signaled sig core).word = true := by
  revert sig core
  exact SigNum.forall_of_fin (by decide)

@[simp] theorem wtermsig_signaled (sig : SigNum) (core : Bool) :
    wtermsig (Termination.signaled sig core).word = sig.val := by
  revert sig core
  exact SigNum.forall_of_fin (by decide)

@[simp] theorem wcoredump_signaled (sig : SigNum) (core : Bool) :
    wcoredump (Termination.signaled sig core).word = core := by
  revert sig core
  exact SigNum.forall_of_fin (by decide)

/-- A stop is neither an exit nor a termination by a signal. -/
@[simp] theorem wifexited_stopped (sig : SigNum) :
    wifexited (StateChange.stopped sig).word = false := by
  revert sig
  exact SigNum.forall_of_fin (by decide)

@[simp] theorem wifsignaled_stopped (sig : SigNum) :
    wifsignaled (StateChange.stopped sig).word = false := by
  revert sig
  exact SigNum.forall_of_fin (by decide)

@[simp] theorem wifstopped_stopped (sig : SigNum) :
    wifstopped (StateChange.stopped sig).word = true := by
  revert sig
  exact SigNum.forall_of_fin (by decide)

@[simp] theorem wstopsig_stopped (sig : SigNum) :
    wstopsig (StateChange.stopped sig).word = sig.val := by
  revert sig
  exact SigNum.forall_of_fin (by decide)

/-- Every ended child is recognised by one of the two tests an observer of
deaths makes on its status word. -/
theorem Termination.wifsignaled_or_wifexited (t : Termination) :
    (wifsignaled t.word || wifexited t.word) = true := by
  cases t with
  | exited code => simp
  | signaled sig core => simp

end ProcessCpp.Posix
