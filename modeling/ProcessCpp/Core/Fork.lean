import ProcessCpp.Core.Pipe

/-!
# `core::posix::fork` and the streams of a `ChildProcess`

`fork` (fork.cpp:57–120), `ChildProcess::Private` and the constructor of
`ChildProcess` (child_process.cpp:273–339), on the descriptors of the calling
process.

- `StandardStream`: the flags; `Stream`: the three streams they name;
- `Streams`: three pipes, one for each stream;
- `fork`: the object the parent gets, and what the child has when `main` starts in it.

`fork_spec` is the specification of one call: in the child each redirected stream is an
end of a new pipe and nothing else of these pipes is left; in the parent the table is
the old one with the other end of each pipe added, at the number the object's
stream uses. What makes it true for every table is `openStream_adds`: assigning from a
temporary leaves the pipe at numbers above those of the temporary, so no end that is
still needed lies at 0 or 1, and the one that can lie at 2 is used before 2 is
overwritten.
-/

namespace ProcessCpp.Core

open ProcessCpp.Base ProcessCpp.Posix

/-! ## Streams and flags -/

/-- `core::posix::StandardStream`. -/
structure StandardStream where
  bits : UInt8
deriving DecidableEq, Repr

/-- `operator&(StandardStream, StandardStream)`. -/
def StandardStream.and (l r : StandardStream) : StandardStream := ⟨l.bits &&& r.bits⟩

def StandardStream.empty : StandardStream := ⟨0⟩

/-- The three standard streams. -/
inductive Stream where
  | stdin
  | stdout
  | stderr
deriving DecidableEq, Repr

namespace Stream

/-- The enumerator of `StandardStream`. -/
def flag : Stream → StandardStream
  | .stdin => ⟨1⟩
  | .stdout => ⟨2⟩
  | .stderr => ⟨4⟩

/-- `STDIN_FILENO`, `STDOUT_FILENO`, `STDERR_FILENO`. -/
def fileno : Stream → Nat
  | .stdin => 0
  | .stdout => 1
  | .stderr => 2

theorem fileno_injective : Function.Injective fileno := by
  intro s s' h
  cases s <;> cases s' <;> first | rfl | cases h

/-- The end of its pipe the child uses. -/
def childEnd : Stream → PipeEnd
  | .stdin => .read
  | .stdout => .write
  | .stderr => .write

/-- The end of its pipe the parent uses. -/
def parentEnd : Stream → PipeEnd
  | .stdin => .write
  | .stdout => .read
  | .stderr => .read

end Stream

/-- `(flags & stream) != StandardStream::empty`. -/
def StandardStream.has (flags : StandardStream) (s : Stream) : Bool :=
  decide (flags.and s.flag ≠ empty)

/-- A pipe for each stream. -/
structure Streams where
  stdin : Pipe
  stdout : Pipe
  stderr : Pipe
deriving DecidableEq, Repr

/-- The destructors of three locals, in reverse order. -/
def Streams.dtor (ps : Streams) : FdM Unit := do
  ps.stderr.dtor
  ps.stdout.dtor
  ps.stdin.dtor

/-! ## The object -/

/-- `ChildProcess::Private`: the pipes, the descriptors its stream buffers use, and
the pids it was made with. -/
structure ChildPrivate where
  pipes : Streams
  serr : Option Nat
  sin : Option Nat
  sout : Option Nat
  originalParentPid : Nat
  originalChildPid : Nat
deriving DecidableEq, Repr

/-- The constructor of `Private`. The aggregate has the fields `stdin`, `stdout`,
`stderr`, and is initialised from the parameters `stderr`, `stdin`, `stdout`. -/
def ChildPrivate.ctor (getpid pid : Nat) (stderr stdin stdout : Pipe) : FdM ChildPrivate := do
  -- `pipes{stderr, stdin, stdout}` fills the members in the order they are declared
  let pipesStdin ← stderr.copy
  let pipesStdout ← stdin.copy
  let pipesStderr ← stdout.copy
  return {
    pipes := ⟨pipesStdin, pipesStdout, pipesStderr⟩
    serr := pipesStderr.readFd
    sin := pipesStdin.writeFd
    sout := pipesStdout.readFd
    originalParentPid := getpid
    originalChildPid := pid }

/-- `core::posix::ChildProcess`, as `fork` returns it. -/
structure ForkedChild where
  pid : Nat
  d : ChildPrivate
deriving DecidableEq, Repr

/-- `ChildProcess::ChildProcess`. -/
def ForkedChild.ctor (getpid pid : Nat) (stdinPipe stdoutPipe stderrPipe : Pipe) :
    FdM ForkedChild := do
  -- again in the order stdin, stdout, stderr: the second shift undoes the first
  let d ← ChildPrivate.ctor getpid pid stdinPipe stdoutPipe stderrPipe
  return ⟨pid, d⟩

/-- The descriptor behind `cin()`, `cout()` or `cerr()`. -/
def ForkedChild.streamFd (c : ForkedChild) : Stream → Option Nat
  | .stdin => c.d.sin
  | .stdout => c.d.sout
  | .stderr => c.d.serr

/-- The descriptors an object owns are those of its three pipes. -/
def ForkedChild.OwnsFd (c : ForkedChild) (n : Nat) : Prop :=
  ∃ p ∈ [c.d.pipes.stdin, c.d.pipes.stdout, c.d.pipes.stderr],
    p.readFd = some n ∨ p.writeFd = some n

/-! ## The function -/

/-- `if (flag set) p = Pipe();` -/
def openStream (want : Bool) (p : Pipe) : FdM Pipe :=
  if want then do
    let temporary ← Pipe.ctor
    let p ← p.assign temporary
    temporary.dtor
    return p
  else return p

/-- The three locals of `fork`, up to the call of `::fork`. An exception destroys
them. -/
def openStreams (flags : StandardStream) : FdM Streams := do
  let stdin ← Pipe.invalid
  let stdout ← Pipe.invalid
  let stderr ← Pipe.invalid
  let stdin' ← FdM.unwinding (Streams.dtor ⟨stdin, stdout, stderr⟩)
    (openStream (flags.has .stdin) stdin)
  let stdout' ← FdM.unwinding (Streams.dtor ⟨stdin', stdout, stderr⟩)
    (openStream (flags.has .stdout) stdout)
  let stderr' ← FdM.unwinding (Streams.dtor ⟨stdin', stdout', stderr⟩)
    (openStream (flags.has .stderr) stderr)
  return ⟨stdin', stdout', stderr'⟩

/-- `redirect_stream_to_fd`, if the stream is in the flags. -/
def redirectStream (want : Bool) (fd : Option Nat) (stream : Stream) : FdM Unit :=
  if want then sysDup2 fd stream.fileno else return ()

/-- The child closes the parent's ends. -/
def closeParentEnds (ps : Streams) : FdM Streams := do
  let stdin ← ps.stdin.closeWriteFd
  let stdout ← ps.stdout.closeReadFd
  let stderr ← ps.stderr.closeReadFd
  return ⟨stdin, stdout, stderr⟩

def redirectStreams (flags : StandardStream) (ps : Streams) : FdM Unit := do
  redirectStream (flags.has .stdin) ps.stdin.readFd .stdin
  redirectStream (flags.has .stdout) ps.stdout.writeFd .stdout
  redirectStream (flags.has .stderr) ps.stderr.writeFd .stderr

/-- The child's branch up to the call of `main`. -/
def childSide (flags : StandardStream) (ps : Streams) : FdM Streams := do
  let ps ← closeParentEnds ps
  redirectStreams flags ps
  return ps

/-- The parent's branch, with the destructors of the locals. -/
def parentSide (self child : Nat) (ps : Streams) : FdM ForkedChild := do
  let stdin ← ps.stdin.closeReadFd
  let stdout ← ps.stdout.closeWriteFd
  let stderr ← ps.stderr.closeWriteFd
  let object ← ForkedChild.ctor self child stdin stdout stderr
  Streams.dtor ⟨stdin, stdout, stderr⟩
  return object

/-- `::fork`, for the parent. -/
def sysFork : FdM Unit := fun k =>
  match k.nextFault with
  | some errno => (.error errno, k.called)
  | none => (.ok (), k.called)

/-- `core::posix::fork` in the process `self`, whose child gets the pid `child`: the
object returned in the parent, and the outcome of the child's branch up to `main`, in
its copy of the parent's state. `faults` are the calls that fail in the child. -/
def fork (self child : Nat) (flags : StandardStream) (faults : List (Option Errno)) :
    FdM (ForkedChild × (Except Errno Streams × FdState)) := do
  let ps ← openStreams flags
  FdM.unwinding ps.dtor sysFork
  -- from here on there are two processes, each with its copy of the state
  let k ← FdM.current
  let object ← parentSide self child ps
  return (object, childSide flags ps { k with faults })

/-! ## Opening the pipes -/

open FdTable FdM

variable {base : FdTable Descr} {k : FdState} {own : Multiset (Nat × Descr)}

/-- A pipe after `openStream`: there if wanted, and away from 0 and 1, its write end
also from 2. -/
structure Opened (want : Bool) (p : Pipe) : Prop where
  read_isSome : p.readFd.isSome = want
  write_isSome : p.writeFd.isSome = want
  read_ge : ∀ n, p.readFd = some n → 2 ≤ n
  write_ge : ∀ n, p.writeFd = some n → 3 ≤ n

theorem Owns.congr {own' : Multiset (Nat × Descr)} (h : Owns base k own) (he : own = own') :
    Owns base k own' := he ▸ h

theorem Pipe.assign_closed (rhs : Pipe) : Pipe.closed.assign rhs = rhs.copy := rfl

/-- Assigning from a temporary, if its `pipe` does not fail: the two calls after it decide
about the two ends. -/
theorem openStream_adds {want : Bool} (h : base.Adds k.table own)
    (hok : want = true → k.nextFault = none) :
    Returns (openStream want Pipe.closed) k fun p k' =>
      base.Adds k'.table (readEnd p.readFd k.nextPipe + (writeEnd p.writeFd k.nextPipe + own)) ∧
      After k (3 * want.toNat) k' ∧ k'.nextPipe = k.nextPipe + want.toNat ∧
      p.readFd.isSome = (want && (k.faults.drop 1).head?.join.isNone) ∧
      p.writeFd.isSome = (want && (k.faults.drop 2).head?.join.isNone) ∧
      (∀ n, p.readFd = some n → 2 ≤ n) ∧
      (∀ n m, p.readFd = some n → p.writeFd = some m → n < m) := by
  cases want with
  | false =>
    refine Returns.pure ⟨?_, After.refl k, rfl, rfl, rfl, nofun, nofun⟩
    simpa [Pipe.closed] using h
  | true =>
    refine (Pipe.ctor_adds h (hok rfl)).bind ?_
    rintro _ k₁ ⟨r, w, rfl, h₁, hafter₁, hnext₁, hrw, hfree⟩
    rw [Pipe.assign_closed]
    have hw : writeEnd (some w) k.nextPipe ≤
        readEnd (some r) k.nextPipe + (writeEnd (some w) k.nextPipe + own) :=
      (Multiset.le_add_right _ _).trans (Multiset.le_add_left _ _)
    -- the temporary has taken the two lowest numbers, so the copy lies above them
    refine (Pipe.copy_adds (p := ⟨some r, some w⟩) h₁ (Multiset.le_add_right _ _) hw).bind ?_
    rintro p k₂ ⟨h₂, hafter₂, hnext₂, hread, hwrite, hlow, hlt⟩
    have h₂' : base.Adds k₂.table (readEnd (some r) k.nextPipe +
        (writeEnd (some w) k.nextPipe +
          (readEnd p.readFd k.nextPipe + (writeEnd p.writeFd k.nextPipe + own)))) := by
      have hsame : readEnd p.readFd k.nextPipe + (writeEnd p.writeFd k.nextPipe +
          (readEnd (some r) k.nextPipe + (writeEnd (some w) k.nextPipe + own))) =
          readEnd (some r) k.nextPipe + (writeEnd (some w) k.nextPipe +
            (readEnd p.readFd k.nextPipe + (writeEnd p.writeFd k.nextPipe + own))) := by abel
      rw [← hsame]
      exact h₂
    refine (Pipe.dtor_adds h₂').bind ?_
    rintro _ k₃ ⟨h₃, hafter₃, hnext₃⟩
    rw [hafter₁.nextFault] at hread
    rw [hafter₁.1] at hwrite
    refine Returns.pure ⟨h₃, (hafter₁.trans hafter₂).trans hafter₃, ?_, ?_, ?_, ?_, hlt⟩
    · rw [hnext₃, hnext₂, hnext₁]
      rfl
    · simpa using hread
    · simpa using hwrite
    · intro n hn
      have := hlow n hn
      omega

/-- `openStream_adds` while no call fails. -/
theorem openStream_spec (h : Owns base k own) (want : Bool) :
    Returns (openStream want Pipe.closed) k fun p k' =>
      Opened want p ∧
      Owns base k' (readEnd p.readFd k.nextPipe +
        (writeEnd p.writeFd k.nextPipe + own)) ∧
      k'.nextPipe = k.nextPipe + want.toNat ∧ k'.invalidDone = k.invalidDone := by
  refine (openStream_adds h.adds fun _ => h.nextFault).weaken ?_
  rintro p k' ⟨hadds, hafter, hnext, hread, hwrite, hlow, hlt⟩
  have hread' : p.readFd.isSome = want := by simpa [h.quiet] using hread
  have hwrite' : p.writeFd.isSome = want := by simpa [h.quiet] using hwrite
  refine ⟨⟨hread', hwrite', hlow, fun m hm => ?_⟩, h.after hadds hafter, hnext, hafter.2⟩
  have hsome : p.readFd.isSome = true := by
    rw [hread', ← hwrite', hm]
    rfl
  obtain ⟨n, hn⟩ := Option.isSome_iff_exists.mp hsome
  have := hlow n hn
  have := hlt n m hn hm
  omega

/-- `Pipe::invalid` leaves no descriptor behind; the first call uses up a pipe. -/
theorem Pipe.invalid_adds (h : base.Adds k.table own)
    (hok : k.invalidDone = false → k.nextFault = none) :
    Returns Pipe.invalid k fun p k' => p = Pipe.closed ∧ base.Adds k'.table own ∧
      k'.faults = k.faults.drop (!k.invalidDone).toNat ∧ k'.invalidDone = true ∧
      k.nextPipe ≤ k'.nextPipe := by
  refine Returns.current_bind ?_
  cases hdone : k.invalidDone with
  | true =>
    rw [if_pos rfl]
    exact ⟨Pipe.closed, k, rfl, rfl, h, rfl, hdone, Nat.le_refl _⟩
  | false =>
    rw [if_neg Bool.false_ne_true]
    refine (Pipe.ctor_adds h (hok hdone)).bind ?_
    rintro _ k₁ ⟨r, w, rfl, h₁, hafter₁, hnext₁, -, -⟩
    refine (Pipe.closeReadFd_adds h₁).bind ?_
    rintro _ k₂ ⟨rfl, h₂, hafter₂, hnext₂⟩
    refine (Pipe.closeWriteFd_adds h₂).bind ?_
    rintro _ k₃ ⟨rfl, h₃, hafter₃, hnext₃⟩
    refine ⟨Pipe.closed, { k₃ with invalidDone := true }, rfl, rfl, h₃,
      ((hafter₁.trans hafter₂).trans hafter₃).1, rfl, ?_⟩
    show k.nextPipe ≤ k₃.nextPipe
    omega

/-- `Pipe.invalid_adds` while no call fails. -/
theorem Pipe.invalid_spec (h : Owns base k own) :
    Returns Pipe.invalid k fun p k' =>
      p = Pipe.closed ∧ Owns base k' own ∧ k.nextPipe ≤ k'.nextPipe ∧
      k'.invalidDone = true := by
  refine (Pipe.invalid_adds h.adds fun _ => h.nextFault).weaken ?_
  rintro p k' ⟨hp, hadds, hfaults, hdone, hnext⟩
  refine ⟨hp, ⟨hadds, ?_⟩, hnext, hdone⟩
  rw [hfaults, h.quiet, List.drop_nil]

/-- The descriptors of a pipe. -/
def Pipe.descrs (p : Pipe) (id : Nat) : Multiset (Nat × Descr) :=
  readEnd p.readFd id + writeEnd p.writeFd id

/-- Numbers of pipes made by a call, one for each stream in the flags. -/
structure NewPipes (flags : StandardStream) (ids : Stream → Nat) (first last : Nat) : Prop where
  new : ∀ s, first ≤ ids s
  made : ∀ s, flags.has s = true → ids s < last
  distinct : ∀ s s', flags.has s = true → flags.has s' = true → ids s = ids s' → s = s'

/-- One number for each stream. -/
def Stream.numbered (a b c : Nat) : Stream → Nat
  | .stdin => a
  | .stdout => b
  | .stderr => c

/-- A counter that moves on with each pipe that is made numbers them apart. -/
theorem NewPipes.of_counters {flags : StandardStream} {first a b c last : Nat} (hfirst : first ≤ a)
    (hb : b = a + (flags.has .stdin).toNat) (hc : c = b + (flags.has .stdout).toNat)
    (hlast : last = c + (flags.has .stderr).toNat) :
    NewPipes flags (Stream.numbered a b c) first last := by
  have hlt : ∀ {n m s}, m = n + (flags.has s).toNat → flags.has s = true → n < m := by
    intro n m s hm hs
    rw [hm, hs]
    exact Nat.lt_succ_self n
  refine ⟨fun s => ?_, fun s hs => ?_, fun s s' hs hs' he => ?_⟩
  · cases s <;> dsimp only [Stream.numbered] <;> omega
  · cases s with
    | stdin =>
      have hab := hlt hb hs
      show a < last
      omega
    | stdout =>
      have hbc := hlt hc hs
      show b < last
      omega
    | stderr => exact hlt hlast hs
  · cases s with
    | stdin =>
      have hab := hlt hb hs
      cases s' with
      | stdin => rfl
      | stdout | stderr => dsimp only [Stream.numbered] at he; omega
    | stdout =>
      have hbc := hlt hc hs
      cases s' with
      | stdin => have hab := hlt hb hs'; dsimp only [Stream.numbered] at he; omega
      | stdout => rfl
      | stderr => dsimp only [Stream.numbered] at he; omega
    | stderr =>
      cases s' with
      | stdin => have hab := hlt hb hs'; dsimp only [Stream.numbered] at he; omega
      | stdout => have hbc := hlt hc hs'; dsimp only [Stream.numbered] at he; omega
      | stderr => rfl

/-- Three pipes opened according to the flags. -/
structure OpenedStreams (flags : StandardStream) (ps : Streams) : Prop where
  stdin : Opened (flags.has .stdin) ps.stdin
  stdout : Opened (flags.has .stdout) ps.stdout
  stderr : Opened (flags.has .stderr) ps.stderr

def Streams.descrs (ps : Streams) (ids : Stream → Nat) : Multiset (Nat × Descr) :=
  ps.stdin.descrs (ids .stdin) +
    (ps.stdout.descrs (ids .stdout) + ps.stderr.descrs (ids .stderr))

/-- The ends the parent is to keep. -/
def Streams.parentEnds (ps : Streams) (ids : Stream → Nat) : Multiset (Nat × Descr) :=
  writeEnd ps.stdin.writeFd (ids .stdin) +
    (readEnd ps.stdout.readFd (ids .stdout) + readEnd ps.stderr.readFd (ids .stderr))

/-- The ends the child is to use. -/
def Streams.childEnds (ps : Streams) (ids : Stream → Nat) : Multiset (Nat × Descr) :=
  readEnd ps.stdin.readFd (ids .stdin) +
    (writeEnd ps.stdout.writeFd (ids .stdout) + writeEnd ps.stderr.writeFd (ids .stderr))

/-- The descriptor of the child's end of a stream. -/
def Streams.childFd (ps : Streams) : Stream → Option Nat
  | .stdin => ps.stdin.readFd
  | .stdout => ps.stdout.writeFd
  | .stderr => ps.stderr.writeFd

theorem Streams.mem_childEnds {ps : Streams} {ids : Stream → Nat} {n : Nat} {d : Descr} :
    (n, d) ∈ ps.childEnds ids ↔ ∃ s, ps.childFd s = some n ∧ .pipe (ids s) s.childEnd = d := by
  unfold Streams.childEnds
  rw [Multiset.mem_add, Multiset.mem_add, mem_owned, mem_owned, mem_owned]
  constructor
  · rintro (h | h | h)
    · exact ⟨.stdin, h⟩
    · exact ⟨.stdout, h⟩
    · exact ⟨.stderr, h⟩
  · rintro ⟨s, h⟩
    cases s with
    | stdin => exact .inl h
    | stdout => exact .inr (.inl h)
    | stderr => exact .inr (.inr h)

namespace OpenedStreams

variable {flags : StandardStream} {ps : Streams}

theorem childFd_isSome (ho : OpenedStreams flags ps) (s : Stream) :
    (ps.childFd s).isSome = flags.has s := by
  cases s with
  | stdin => exact ho.stdin.read_isSome
  | stdout => exact ho.stdout.write_isSome
  | stderr => exact ho.stderr.write_isSome

/-- The write ends lie above 2, so no redirection moves them. -/
theorem childFd_gt (ho : OpenedStreams flags ps) {s : Stream} {n : Nat} (hn : ps.childFd s = some n)
    (hs : s ≠ .stdin) : 2 < n := by
  cases s with
  | stdin => exact absurd rfl hs
  | stdout => exact ho.stdout.write_ge n hn
  | stderr => exact ho.stderr.write_ge n hn

end OpenedStreams

/-- The order in which the child closes the parent's ends. -/
theorem Streams.descrs_eq_childEnds (ps : Streams) (ids : Stream → Nat) :
    ps.descrs ids = writeEnd ps.stdin.writeFd (ids .stdin) +
      (readEnd ps.stdout.readFd (ids .stdout) +
        (readEnd ps.stderr.readFd (ids .stderr) + ps.childEnds ids)) := by
  unfold Streams.descrs Streams.childEnds Pipe.descrs
  abel

/-- The descriptor of the parent's end of a stream. -/
def Streams.parentFd (ps : Streams) : Stream → Option Nat
  | .stdin => ps.stdin.writeFd
  | .stdout => ps.stdout.readFd
  | .stderr => ps.stderr.readFd

/-- The descriptors of the locals are their ends for the parent and for the child. -/
theorem Streams.mem_descrs {ids : Stream → Nat} {ps : Streams} {n : Nat} {d : Descr}
    (h : (n, d) ∈ ps.descrs ids) :
    ∃ s, (ps.parentFd s = some n ∧ d = .pipe (ids s) s.parentEnd) ∨
      (ps.childFd s = some n ∧ d = .pipe (ids s) s.childEnd) := by
  rw [ps.descrs_eq_childEnds, Multiset.mem_add, Multiset.mem_add, Multiset.mem_add, mem_owned,
    mem_owned, mem_owned, Streams.mem_childEnds] at h
  rcases h with ⟨hfd, hd⟩ | ⟨hfd, hd⟩ | ⟨hfd, hd⟩ | ⟨s, hfd, hd⟩
  · exact ⟨.stdin, .inl ⟨hfd, hd.symm⟩⟩
  · exact ⟨.stdout, .inl ⟨hfd, hd.symm⟩⟩
  · exact ⟨.stderr, .inl ⟨hfd, hd.symm⟩⟩
  · exact ⟨s, .inr ⟨hfd, hd.symm⟩⟩

/-- The order in which the parent closes the child's ends. -/
theorem Streams.descrs_eq_parentEnds (ps : Streams) (ids : Stream → Nat) :
    ps.descrs ids = readEnd ps.stdin.readFd (ids .stdin) +
      (writeEnd ps.stdout.writeFd (ids .stdout) +
        (writeEnd ps.stderr.writeFd (ids .stderr) + ps.parentEnds ids)) := by
  unfold Streams.descrs Streams.parentEnds Pipe.descrs
  abel

theorem openStreams_spec (h : Owns base k 0) (flags : StandardStream) :
    Returns (openStreams flags) k fun ps k' => ∃ ids,
      NewPipes flags ids k.nextPipe k'.nextPipe ∧ OpenedStreams flags ps ∧
      k.nextPipe ≤ k'.nextPipe ∧ k'.invalidDone = true ∧ Owns base k' (ps.descrs ids) := by
  unfold openStreams
  refine (Pipe.invalid_spec h).bind ?_
  rintro _ k₁ ⟨rfl, h₁, hnext₁, -⟩
  refine (Pipe.invalid_spec h₁).bind ?_
  rintro _ k₂ ⟨rfl, h₂, hnext₂, -⟩
  refine (Pipe.invalid_spec h₂).bind ?_
  rintro _ k₃ ⟨rfl, h₃, hnext₃, hdone₃⟩
  refine ((openStream_spec h₃ (flags.has .stdin)).unwinding _).bind ?_
  rintro stdin k₄ ⟨hin, h₄, hnext₄, hdone₄⟩
  refine ((openStream_spec h₄ (flags.has .stdout)).unwinding _).bind ?_
  rintro stdout k₅ ⟨hout, h₅, hnext₅, hdone₅⟩
  refine ((openStream_spec h₅ (flags.has .stderr)).unwinding _).bind ?_
  rintro stderr k₆ ⟨herr, h₆, hnext₆, hdone₆⟩
  have hnew := NewPipes.of_counters (hnext₁.trans (hnext₂.trans hnext₃)) hnext₄ hnext₅ hnext₆
  refine Returns.pure ⟨_, hnew, ⟨hin, hout, herr⟩, by omega, ?_, h₆.congr ?_⟩
  · rw [hdone₆, hdone₅, hdone₄, hdone₃]
  · simp only [Streams.descrs, Pipe.descrs, Stream.numbered]
    abel

/-- Three pipes destroyed: what they own is given up. -/
theorem Streams.dtor_adds {ps : Streams} {a b c d e f : Descr}
    (h : base.Adds k.table (owned ps.stderr.readFd a + (owned ps.stderr.writeFd b +
      (owned ps.stdout.readFd c + (owned ps.stdout.writeFd d +
        (owned ps.stdin.readFd e + (owned ps.stdin.writeFd f + own))))))) :
    Returns ps.dtor k fun _ k' =>
      base.Adds k'.table own ∧ After k 0 k' ∧ k'.nextPipe = k.nextPipe := by
  refine (Pipe.dtor_adds h).bind fun _ k₁ ⟨h₁, hafter₁, hnext₁⟩ => ?_
  refine (Pipe.dtor_adds h₁).bind fun _ k₂ ⟨h₂, hafter₂, hnext₂⟩ => ?_
  refine (Pipe.dtor_adds h₂).weaken fun _ k₃ ⟨h₃, hafter₃, hnext₃⟩ => ?_
  refine ⟨h₃, (hafter₁.trans hafter₂).trans hafter₃, ?_⟩
  rw [hnext₃, hnext₂, hnext₁]

/-! ## The child's branch -/

theorem redirectStream_spec {want : Bool} {fd : Option Nat} {stream : Stream} {d : Descr}
    (hcalm : k.Calm want.toNat)
    (hfd : want = true → ∃ n, fd = some n ∧ k.table.get n = some d) :
    Returns (redirectStream want fd stream) k fun _ k' => After k want.toNat k' ∧
      ∀ m, k'.table.get m = if want = true ∧ m = stream.fileno then some d else k.table.get m := by
  cases want with
  | false =>
    refine Returns.pure ⟨After.refl k, fun m => ?_⟩
    rw [if_neg fun h => Bool.false_ne_true h.1]
  | true =>
    obtain ⟨n, rfl, hget⟩ := hfd rfl
    have hfault := hcalm.nextFault Nat.one_pos
    refine ⟨(), { k.called with table := k.table.set stream.fileno d }, ?_, After.called k,
      fun m => ?_⟩
    · simp only [redirectStream, if_true, sysDup2, hfault, Option.bind_some,
        FdTable.dup2, hget, Option.map_some]
    · rw [get_set]
      by_cases hm : m = stream.fileno
      · rw [if_pos hm, if_pos ⟨rfl, hm⟩]
      · rw [if_neg hm, if_neg fun h => hm h.2]

/-- What the child has when `main` starts: its end of a new pipe at each redirected
stream, the parent's descriptors at the other numbers, and no other end of the new
pipes. -/
structure ChildWired (flags : StandardStream) (ids : Stream → Nat) (base t : FdTable Descr) :
    Prop where
  redirected : ∀ s, flags.has s = true → t.get s.fileno = some (.pipe (ids s) s.childEnd)
  kept : ∀ s, flags.has s = false → ∀ d, base.get s.fileno = some d → t.get s.fileno = some d
  only : ∀ n d, t.get n = some d →
    base.get n = some d ∨ ∃ s, flags.has s = true ∧ d = .pipe (ids s) s.childEnd

/-- Every descriptor of the parent at a number that is not redirected is the child's too. -/
def Inherits (flags : StandardStream) (base t : FdTable Descr) : Prop :=
  ∀ n d, base.get n = some d → (∀ s, flags.has s = true → s.fileno ≠ n) → t.get n = some d

/-- What is left of a pipe each after the child closed the parent's ends. -/
def Streams.childPart (ps : Streams) : Streams :=
  ⟨⟨ps.stdin.readFd, none⟩, ⟨none, ps.stdout.writeFd⟩, ⟨none, ps.stderr.writeFd⟩⟩

theorem Streams.childFd_childPart (ps : Streams) (s : Stream) :
    ps.childPart.childFd s = ps.childFd s := by
  cases s <;> rfl

theorem closeParentEnds_adds {ids : Stream → Nat} {ps : Streams}
    (h : base.Adds k.table (ps.descrs ids)) :
    Returns (closeParentEnds ps) k fun ps' k' => ps' = ps.childPart ∧
      base.Adds k'.table (ps.childEnds ids) ∧ After k 0 k' := by
  rw [ps.descrs_eq_childEnds ids] at h
  unfold closeParentEnds
  refine (Pipe.closeWriteFd_adds h).bind ?_
  rintro _ k₁ ⟨rfl, h₁, hafter₁, -⟩
  refine (Pipe.closeReadFd_adds h₁).bind ?_
  rintro _ k₂ ⟨rfl, h₂, hafter₂, -⟩
  refine (Pipe.closeReadFd_adds h₂).bind ?_
  rintro _ k₃ ⟨rfl, h₃, hafter₃, -⟩
  exact Returns.pure ⟨rfl, h₃, (hafter₁.trans hafter₂).trans hafter₃⟩

/-- What the redirections make of a table: a number that is redirected has the child's end
of its stream's pipe, and every other number has what it had. -/
structure Redirected (flags : StandardStream) (ids : Stream → Nat) (t t' : FdTable Descr) :
    Prop where
  streams : ∀ s, flags.has s = true → t'.get s.fileno = some (.pipe (ids s) s.childEnd)
  elsewhere : ∀ n, (∀ s, flags.has s = true → s.fileno ≠ n) → t'.get n = t.get n

/-- The number of streams in the flags. -/
def StandardStream.count (flags : StandardStream) : Nat :=
  (flags.has .stdin).toNat + ((flags.has .stdout).toNat + (flags.has .stderr).toNat)

/-- The child's end of each stream in the flags is in the table, those of `stdout` and `stderr`
at numbers that no redirection writes. -/
def EndsReady (flags : StandardStream) (ids : Stream → Nat) (ps : Streams)
    (t : FdTable Descr) : Prop :=
  ∀ s, flags.has s = true → ∃ n, ps.childFd s = some n ∧
    t.get n = some (.pipe (ids s) s.childEnd) ∧ (s ≠ .stdin → 2 < n)

section

variable {flags : StandardStream} {ids : Stream → Nat} {ps : Streams} {t t' : FdTable Descr}

theorem EndsReady.find (h : EndsReady flags ids ps t) (s : Stream) (hs : flags.has s = true) :
    ∃ n, ps.childFd s = some n ∧ t.get n = some (.pipe (ids s) s.childEnd) := by
  obtain ⟨n, hn, hget, -⟩ := h s hs
  exact ⟨n, hn, hget⟩

/-- After some redirections the ends that the later ones need are where they were. -/
theorem EndsReady.find_after (h : EndsReady flags ids ps t)
    (hsame : ∀ n, 2 < n → t'.get n = t.get n) {s : Stream} (hlate : s ≠ .stdin)
    (hs : flags.has s = true) :
    ∃ n, ps.childFd s = some n ∧ t'.get n = some (.pipe (ids s) s.childEnd) := by
  obtain ⟨n, hn, hget, hgt⟩ := h s hs
  exact ⟨n, hn, (hsame n (hgt hlate)).trans hget⟩

/-- So it is once the child has closed the parent's ends. -/
theorem OpenedStreams.endsReady (ho : OpenedStreams flags ps)
    (h : base.Adds t (ps.childEnds ids)) : EndsReady flags ids ps.childPart t := by
  intro s hs
  rw [← ho.childFd_isSome s] at hs
  obtain ⟨n, hn⟩ := Option.isSome_iff_exists.mp hs
  exact ⟨n, ps.childFd_childPart s ▸ hn,
    h.get_own (Streams.mem_childEnds.mpr ⟨s, hn, rfl⟩), ho.childFd_gt hn⟩

theorem Stream.fileno_le_two (s : Stream) : s.fileno ≤ 2 := by
  cases s <;> decide

/-- The redirections, of which none moves the ends that the later ones need. -/
theorem redirectStreams_spec (hcalm : k.Calm flags.count)
    (hends : EndsReady flags ids ps k.table) :
    Returns (redirectStreams flags ps) k fun _ k' =>
      Redirected flags ids k.table k'.table ∧ k'.invalidDone = k.invalidDone := by
  unfold StandardStream.count at hcalm
  unfold redirectStreams
  -- stdin
  refine (redirectStream_spec (fun i hi => hcalm i (by omega)) (hends.find .stdin)).bind ?_
  rintro _ k₁ ⟨hafter₁, hget₁⟩
  have hcalm₁ := hcalm.after hafter₁
  have hhigh₁ : ∀ n, 2 < n → k₁.table.get n = k.table.get n := by
    intro n hn
    have hle := Stream.stdin.fileno_le_two
    rw [hget₁, if_neg (by omega)]
  -- stdout
  refine (redirectStream_spec (fun i hi => hcalm₁ i (by omega))
    (hends.find_after hhigh₁ (s := .stdout) nofun)).bind ?_
  rintro _ k₂ ⟨hafter₂, hget₂⟩
  have hhigh₂ : ∀ n, 2 < n → k₂.table.get n = k.table.get n := by
    intro n hn
    have hle := Stream.stdout.fileno_le_two
    rw [hget₂, if_neg (by omega), hhigh₁ n hn]
  -- stderr
  refine (redirectStream_spec (hcalm₁.after hafter₂)
    (hends.find_after hhigh₂ (s := .stderr) nofun)).weaken ?_
  rintro _ k₃ ⟨hafter₃, hget₃⟩
  refine ⟨⟨fun s hs => ?_, fun n hother => ?_⟩, ?_⟩
  · cases s <;> simp [hget₃, hget₂, hget₁, hs, Stream.fileno, Stream.childEnd]
  · have hnot : ∀ s, ¬ (flags.has s = true ∧ n = s.fileno) := fun s hs => hother s hs.1 hs.2.symm
    rw [hget₃, if_neg (hnot .stderr), hget₂, if_neg (hnot .stdout), hget₁, if_neg (hnot .stdin)]
  · rw [hafter₃.2, hafter₂.2, hafter₁.2]

end

namespace Redirected

variable {flags : StandardStream} {ids : Stream → Nat} {ps : Streams} {t t' : FdTable Descr}

theorem inherits (h : Redirected flags ids t t') (hadds : base.Adds t (ps.childEnds ids)) :
    Inherits flags base t' := by
  intro n d hd hother
  rw [h.elsewhere n hother]
  exact hadds.get_base hd

theorem childWired (h : Redirected flags ids t t') (hadds : base.Adds t (ps.childEnds ids))
    (ho : OpenedStreams flags ps) : ChildWired flags ids base t' := by
  refine ⟨h.streams, fun s hs d hd => ?_, fun n d hd => ?_⟩
  · refine h.inherits hadds s.fileno d hd fun s' hs' he => ?_
    rw [Stream.fileno_injective he, hs] at hs'
    cases hs'
  · by_cases hother : ∀ s, flags.has s = true → s.fileno ≠ n
    · rw [h.elsewhere n hother] at hd
      rcases (hadds.get_iff n d).mp hd with hbase | hmem
      · exact .inl hbase
      · obtain ⟨s, hfd, rfl⟩ := Streams.mem_childEnds.mp hmem
        refine .inr ⟨s, ?_, rfl⟩
        rw [← ho.childFd_isSome s, hfd]
        rfl
    · push Not at hother
      obtain ⟨s, hs, rfl⟩ := hother
      exact .inr ⟨s, hs, Option.some.inj (hd.symm.trans (h.streams s hs))⟩

end Redirected

theorem childSide_adds {flags : StandardStream} {ids : Stream → Nat} {ps : Streams}
    (ho : OpenedStreams flags ps) (h : base.Adds k.table (ps.descrs ids))
    (hcalm : k.Calm flags.count) :
    Returns (childSide flags ps) k fun _ k' =>
      ChildWired flags ids base k'.table ∧ Inherits flags base k'.table ∧
      k'.invalidDone = k.invalidDone := by
  unfold childSide
  refine (closeParentEnds_adds h).bind ?_
  rintro _ k₁ ⟨rfl, h₁, hafter₁⟩
  have hcalm₁ : k₁.Calm flags.count := by
    refine FdState.Calm.after ?_ hafter₁
    rw [Nat.zero_add]
    exact hcalm
  refine (redirectStreams_spec hcalm₁ (ho.endsReady h₁)).bind ?_
  rintro _ k₂ ⟨hredirected, hdone₂⟩
  refine Returns.pure ⟨hredirected.childWired h₁ ho, hredirected.inherits h₁, ?_⟩
  rw [hdone₂, hafter₁.2]

/-! ## The parent's branch -/

/-- What the parent has when `fork` returns: its old table, and at the number each
stream of the object uses the parent's end of that stream's pipe. -/
structure ParentWired (flags : StandardStream) (ids : Stream → Nat) (base t : FdTable Descr)
    (object : ForkedChild) : Prop where
  adds : base.Adds t (writeEnd object.d.sin (ids .stdin) +
    (readEnd object.d.sout (ids .stdout) +
      readEnd object.d.serr (ids .stderr)))
  isSome : ∀ s, (object.streamFd s).isSome = flags.has s
  pipes : object.d.pipes =
    ⟨⟨none, object.d.sin⟩, ⟨object.d.sout, none⟩, ⟨object.d.serr, none⟩⟩

namespace ParentWired

variable {flags : StandardStream} {ids : Stream → Nat} {t : FdTable Descr} {object : ForkedChild}

/-- The parent's end of the pipe is where the object's stream looks for it. -/
theorem stream (h : ParentWired flags ids base t object) {s : Stream} (hs : flags.has s = true) :
    ∃ n, object.streamFd s = some n ∧ t.get n = some (.pipe (ids s) s.parentEnd) := by
  have hsome := h.isSome s
  rw [hs] at hsome
  obtain ⟨n, hn⟩ := Option.isSome_iff_exists.mp hsome
  refine ⟨n, hn, h.adds.get_own ?_⟩
  rw [Multiset.mem_add, Multiset.mem_add, mem_owned, mem_owned, mem_owned]
  cases s with
  | stdin => exact .inl ⟨hn, rfl⟩
  | stdout => exact .inr (.inl ⟨hn, rfl⟩)
  | stderr => exact .inr (.inr ⟨hn, rfl⟩)

/-- The object owns the descriptors its streams use. -/
theorem ownsFd (h : ParentWired flags ids base t object) {s : Stream} {n : Nat}
    (hn : object.streamFd s = some n) : object.OwnsFd n := by
  unfold ForkedChild.OwnsFd
  rw [h.pipes]
  cases s with
  | stdin => exact ⟨_, List.mem_cons_self, .inr hn⟩
  | stdout => exact ⟨_, List.mem_cons_of_mem _ List.mem_cons_self, .inl hn⟩
  | stderr =>
    exact ⟨_, List.mem_cons_of_mem _ (List.mem_cons_of_mem _ List.mem_cons_self), .inl hn⟩

/-- Apart from its old descriptors the parent has those the object's streams use. -/
theorem only_streams (h : ParentWired flags ids base t object) {n : Nat} {d : Descr}
    (hd : t.get n = some d) :
    base.get n = some d ∨ ∃ s, object.streamFd s = some n ∧ flags.has s = true ∧
      d = .pipe (ids s) s.parentEnd := by
  have hhas : ∀ s, object.streamFd s = some n → flags.has s = true := by
    intro s hs
    rw [← h.isSome s, hs]
    rfl
  rcases (h.adds.get_iff n d).mp hd with hbase | hmem
  · exact .inl hbase
  · rw [Multiset.mem_add, Multiset.mem_add, mem_owned, mem_owned, mem_owned] at hmem
    rcases hmem with ⟨hfd, rfl⟩ | ⟨hfd, rfl⟩ | ⟨hfd, rfl⟩
    · exact .inr ⟨.stdin, hfd, hhas .stdin hfd, rfl⟩
    · exact .inr ⟨.stdout, hfd, hhas .stdout hfd, rfl⟩
    · exact .inr ⟨.stderr, hfd, hhas .stderr hfd, rfl⟩

/-- Apart from its old descriptors the parent has the parent's ends only. -/
theorem only (h : ParentWired flags ids base t object) {n : Nat} {d : Descr}
    (hd : t.get n = some d) :
    base.get n = some d ∨ ∃ s, flags.has s = true ∧ d = .pipe (ids s) s.parentEnd := by
  rcases h.only_streams hd with hbase | ⟨s, -, hs⟩
  · exact .inl hbase
  · exact .inr ⟨s, hs⟩

end ParentWired

theorem Pipe.copy_write_adds {w : Option Nat} {d : Descr} (h : base.Adds k.table own)
    (hw : owned w d ≤ own) :
    Returns (Pipe.copy ⟨none, w⟩) k fun p' k' => ∃ w', p' = ⟨none, w'⟩ ∧
      base.Adds k'.table (owned w' d + own) ∧ w'.isSome = (w.isSome && k.nextFault.isNone) ∧
      After k w.isSome.toNat k' ∧ k'.nextPipe = k.nextPipe := by
  refine (Pipe.copy_adds (p := ⟨none, w⟩) (d := d) h (Multiset.zero_le _) hw).weaken ?_
  rintro ⟨r', w'⟩ k' ⟨hadds, hafter, hnext, hread, hwrite, -, -⟩
  cases r' with
  | some n => cases hread
  | none =>
    refine ⟨w', rfl, ?_, hwrite, ?_, hnext⟩
    · simpa using hadds
    · simpa using hafter

theorem Pipe.copy_read_adds {r : Option Nat} {d : Descr} (h : base.Adds k.table own)
    (hr : owned r d ≤ own) :
    Returns (Pipe.copy ⟨r, none⟩) k fun p' k' => ∃ r', p' = ⟨r', none⟩ ∧
      base.Adds k'.table (owned r' d + own) ∧ r'.isSome = (r.isSome && k.nextFault.isNone) ∧
      After k r.isSome.toNat k' ∧ k'.nextPipe = k.nextPipe := by
  refine (Pipe.copy_adds (p := ⟨r, none⟩) (e := d) h hr (Multiset.zero_le _)).weaken ?_
  rintro ⟨r', w'⟩ k' ⟨hadds, hafter, hnext, hread, hwrite, -, -⟩
  cases w' with
  | some n => cases hwrite
  | none =>
    refine ⟨r', rfl, ?_, hread, ?_, hnext⟩
    · simpa using hadds
    · simpa using hafter

/-- The object takes a descriptor of its own for each end it is given, as far as the faults
let it. The pipes pass through two lists of parameters in different orders, which cancel
out. -/
theorem ForkedChild.ctor_adds {w₀ r₁ r₂ : Option Nat} {d₀ d₁ d₂ : Descr}
    (h : base.Adds k.table own) (h₀ : owned w₀ d₀ ≤ own) (h₁ : owned r₁ d₁ ≤ own)
    (h₂ : owned r₂ d₂ ≤ own) (self child : Nat) :
    Returns (ForkedChild.ctor self child ⟨none, w₀⟩ ⟨r₁, none⟩ ⟨r₂, none⟩) k fun object k' =>
      base.Adds k'.table (owned object.d.sin d₀ + (owned object.d.sout d₁ +
        (owned object.d.serr d₂ + own))) ∧
      object.d.sin.isSome = (w₀.isSome && k.nextFault.isNone) ∧
      object.d.sout.isSome =
        (r₁.isSome && (k.faults.drop w₀.isSome.toNat).head?.join.isNone) ∧
      object.d.serr.isSome =
        (r₂.isSome && (k.faults.drop (w₀.isSome.toNat + r₁.isSome.toNat)).head?.join.isNone) ∧
      object.d.pipes = ⟨⟨none, object.d.sin⟩, ⟨object.d.sout, none⟩, ⟨object.d.serr, none⟩⟩ ∧
      After k (w₀.isSome.toNat + r₁.isSome.toNat + r₂.isSome.toNat) k' ∧
      k'.nextPipe = k.nextPipe := by
  refine Returns.bind (x := ChildPrivate.ctor self child ⟨none, w₀⟩ ⟨r₁, none⟩ ⟨r₂, none⟩) ?_
    fun d k' hd => Returns.pure (a := (⟨child, d⟩ : ForkedChild)) hd
  refine (Pipe.copy_write_adds h h₀).bind ?_
  rintro _ k₁ ⟨w, rfl, hk₁, hw, hafter₁, hnext₁⟩
  refine (Pipe.copy_read_adds hk₁ (h₁.trans (Multiset.le_add_left _ _))).bind ?_
  rintro _ k₂ ⟨r, rfl, hk₂, hr, hafter₂, hnext₂⟩
  refine (Pipe.copy_read_adds hk₂ ((h₂.trans (Multiset.le_add_left _ _)).trans
    (Multiset.le_add_left _ _))).bind ?_
  rintro _ k₃ ⟨r', rfl, hk₃, hr', hafter₃, hnext₃⟩
  rw [hafter₁.nextFault] at hr
  rw [(hafter₁.trans hafter₂).nextFault] at hr'
  refine Returns.pure ⟨?_, hw, hr, hr', rfl, (hafter₁.trans hafter₂).trans hafter₃, ?_⟩
  · have horder : owned w d₀ + (owned r d₁ + (owned r' d₂ + own)) =
        owned r' d₂ + (owned r d₁ + (owned w d₀ + own)) := by abel
    show base.Adds k₃.table (owned w d₀ + (owned r d₁ + (owned r' d₂ + own)))
    rw [horder]
    exact hk₃
  · rw [hnext₃, hnext₂, hnext₁]

/-- `ForkedChild.ctor_adds` while no call fails. -/
theorem ForkedChild.ctor_spec {w₀ r₁ r₂ : Option Nat} {d₀ d₁ d₂ : Descr} (h : Owns base k own)
    (h₀ : owned w₀ d₀ ≤ own) (h₁ : owned r₁ d₁ ≤ own) (h₂ : owned r₂ d₂ ≤ own)
    (self child : Nat) :
    Returns (ForkedChild.ctor self child ⟨none, w₀⟩ ⟨r₁, none⟩ ⟨r₂, none⟩) k fun object k' =>
      Owns base k' (owned object.d.sin d₀ + (owned object.d.sout d₁ +
        (owned object.d.serr d₂ + own))) ∧
      object.d.sin.isSome = w₀.isSome ∧ object.d.sout.isSome = r₁.isSome ∧
      object.d.serr.isSome = r₂.isSome ∧
      object.d.pipes = ⟨⟨none, object.d.sin⟩, ⟨object.d.sout, none⟩, ⟨object.d.serr, none⟩⟩ ∧
      k'.nextPipe = k.nextPipe ∧ k'.invalidDone = k.invalidDone := by
  refine (ForkedChild.ctor_adds h.adds h₀ h₁ h₂ self child).weaken ?_
  rintro object k' ⟨hadds, hsin, hsout, hserr, hpipes, hafter, hnext⟩
  refine ⟨h.after hadds hafter, ?_, ?_, ?_, hpipes, hnext, hafter.2⟩
  · simpa [h.nextFault] using hsin
  · simpa [h.quiet] using hsout
  · simpa [h.quiet] using hserr

/-- The parent's branch: the object's streams are what the ends of the pipes and the faults
leave of them. -/
theorem parentSide_adds {ids : Stream → Nat} {ps : Streams}
    (h : base.Adds k.table (ps.descrs ids)) (self child : Nat) :
    Returns (parentSide self child ps) k fun object k' =>
      base.Adds k'.table (writeEnd object.d.sin (ids .stdin) +
        (readEnd object.d.sout (ids .stdout) + readEnd object.d.serr (ids .stderr))) ∧
      object.d.sin.isSome = (ps.stdin.writeFd.isSome && k.nextFault.isNone) ∧
      object.d.sout.isSome = (ps.stdout.readFd.isSome &&
        (k.faults.drop ps.stdin.writeFd.isSome.toNat).head?.join.isNone) ∧
      object.d.serr.isSome = (ps.stderr.readFd.isSome &&
        (k.faults.drop (ps.stdin.writeFd.isSome.toNat +
          ps.stdout.readFd.isSome.toNat)).head?.join.isNone) ∧
      object.d.pipes = ⟨⟨none, object.d.sin⟩, ⟨object.d.sout, none⟩, ⟨object.d.serr, none⟩⟩ ∧
      After k (ps.stdin.writeFd.isSome.toNat + ps.stdout.readFd.isSome.toNat +
        ps.stderr.readFd.isSome.toNat) k' ∧
      k'.nextPipe = k.nextPipe := by
  rw [ps.descrs_eq_parentEnds ids] at h
  unfold parentSide
  refine (Pipe.closeReadFd_adds h).bind ?_
  rintro _ k₁ ⟨rfl, h₁, hafter₁, hnext₁⟩
  refine (Pipe.closeWriteFd_adds h₁).bind ?_
  rintro _ k₂ ⟨rfl, h₂, hafter₂, hnext₂⟩
  refine (Pipe.closeWriteFd_adds h₂).bind ?_
  rintro _ k₃ ⟨rfl, h₃, hafter₃, hnext₃⟩
  have hin : writeEnd ps.stdin.writeFd (ids .stdin) ≤ ps.parentEnds ids :=
    Multiset.le_add_right _ _
  have hout : readEnd ps.stdout.readFd (ids .stdout) ≤ ps.parentEnds ids :=
    (Multiset.le_add_right _ _).trans (Multiset.le_add_left _ _)
  have herr : readEnd ps.stderr.readFd (ids .stderr) ≤ ps.parentEnds ids :=
    (Multiset.le_add_left _ _).trans (Multiset.le_add_left _ _)
  have hclosed : After k 0 k₃ := (hafter₁.trans hafter₂).trans hafter₃
  refine (ForkedChild.ctor_adds h₃ hin hout herr self child).bind ?_
  rintro object k₄ ⟨h₄, hsin, hsout, hserr, hpipes, hafter₄, hnext₄⟩
  rw [hclosed.1, List.drop_zero] at hsout hserr
  rw [hclosed.nextFault, List.drop_zero] at hsin
  -- the locals go and give up their ends; the object's copies stay
  have hlocals : base.Adds k₄.table (readEnd ps.stderr.readFd (ids .stderr) +
      (writeEnd none (ids .stderr) +
        (readEnd ps.stdout.readFd (ids .stdout) +
          (writeEnd none (ids .stdout) +
            (readEnd none (ids .stdin) +
              (writeEnd ps.stdin.writeFd (ids .stdin) +
                (writeEnd object.d.sin (ids .stdin) +
                  (readEnd object.d.sout (ids .stdout) +
                    readEnd object.d.serr (ids .stderr))))))))) := by
    have horder : readEnd ps.stderr.readFd (ids .stderr) + (writeEnd none (ids .stderr) +
        (readEnd ps.stdout.readFd (ids .stdout) + (writeEnd none (ids .stdout) +
          (readEnd none (ids .stdin) + (writeEnd ps.stdin.writeFd (ids .stdin) +
            (writeEnd object.d.sin (ids .stdin) + (readEnd object.d.sout (ids .stdout) +
              readEnd object.d.serr (ids .stderr)))))))) =
        writeEnd object.d.sin (ids .stdin) + (readEnd object.d.sout (ids .stdout) +
          (readEnd object.d.serr (ids .stderr) + ps.parentEnds ids)) := by
      simp only [Streams.parentEnds, owned_none]
      abel
    rw [horder]
    exact h₄
  refine Returns.bind (Streams.dtor_adds hlocals) ?_
  rintro _ k₅ ⟨h₅, hafter₅, hnext₅⟩
  refine Returns.pure ⟨h₅, hsin, hsout, hserr, hpipes, ?_, ?_⟩
  · have hafter := (hclosed.trans hafter₄).trans hafter₅
    rwa [Nat.zero_add] at hafter
  · rw [hnext₅, hnext₄, hnext₃, hnext₂, hnext₁]

/-- The parent's branch while its calls do not fail. -/
theorem parentSide_wired {flags : StandardStream} {ids : Stream → Nat} {ps : Streams}
    (ho : OpenedStreams flags ps) (h : base.Adds k.table (ps.descrs ids))
    (hcalm : k.Calm flags.count) (self child : Nat) :
    Returns (parentSide self child ps) k fun object k' =>
      ParentWired flags ids base k'.table object ∧ After k flags.count k' ∧
      k'.nextPipe = k.nextPipe := by
  refine (parentSide_adds h self child).weaken ?_
  rintro object k' ⟨hadds, hsin, hsout, hserr, hpipes, hafter, hnext⟩
  rw [ho.stdin.write_isSome] at hsin hsout hserr hafter
  rw [ho.stdout.read_isSome] at hsout hserr hafter
  rw [ho.stderr.read_isSome] at hserr hafter
  have hcount : flags.count =
      (flags.has .stdin).toNat + (flags.has .stdout).toNat + (flags.has .stderr).toNat :=
    (Nat.add_assoc ..).symm
  -- the call for a stream in the flags is one of the next calls
  have hkept : ∀ (want : Bool) (n : Nat), (want = true → n < flags.count) →
      (want && (k.faults.drop n).head?.join.isNone) = want := by
    intro want n hn
    cases want with
    | false => rfl
    | true =>
      rw [hcalm n (hn rfl)]
      rfl
  refine ⟨⟨hadds, fun s => ?_, hpipes⟩, ?_, hnext⟩
  · cases s with
    | stdin =>
      exact hsin.trans (hkept _ 0 fun hs => by rw [hcount, hs]; simp only [Bool.toNat_true]; omega)
    | stdout =>
      exact hsout.trans (hkept _ _ fun hs => by rw [hcount, hs]; simp only [Bool.toNat_true]; omega)
    | stderr =>
      exact hserr.trans (hkept _ _ fun hs => by rw [hcount, hs]; simp only [Bool.toNat_true]; omega)
  · rw [hcount]
    exact hafter

/-! ## The call -/

theorem sysFork_spec (h : Owns base k own) : Returns sysFork k fun _ k' => k' = k := by
  refine ⟨(), k, ?_, rfl⟩
  simp only [sysFork, h.nextFault, h.called]

/-- One call of `fork` while no system call fails: it returns, `main` starts in the
child, and both have their ends of the same new pipes. -/
theorem fork_spec (hquiet : k.faults = []) (self child : Nat) (flags : StandardStream) :
    Returns (fork self child flags []) k fun r k' => ∃ ids, ∃ ps kc, r.2 = (.ok ps, kc) ∧
      NewPipes flags ids k.nextPipe k'.nextPipe ∧ k.nextPipe ≤ k'.nextPipe ∧
      ParentWired flags ids k.table k'.table r.1 ∧ ChildWired flags ids k.table kc.table ∧
      Inherits flags k.table kc.table := by
  have hstart : Owns k.table k 0 := ⟨Adds.nil _, hquiet⟩
  unfold fork
  refine (openStreams_spec hstart flags).bind ?_
  rintro ps k₁ ⟨ids, hnew, ho, hnext₁, -, h₁⟩
  refine ((sysFork_spec h₁).unwinding _).bind ?_
  rintro _ k₁ rfl
  refine Returns.current_bind ?_
  refine (parentSide_wired ho h₁.adds (FdState.calm_of_quiet h₁.quiet _) self child).bind ?_
  rintro object k₂ ⟨hparent, -, hnext₂⟩
  obtain ⟨cs, kc, hside, hchild, hinherits, -⟩ :=
    childSide_adds (k := { k₁ with faults := [] }) ho h₁.adds (FdState.calm_of_quiet rfl _)
  refine Returns.pure ⟨ids, cs, kc, hside, ?_, ?_, hparent, hchild, hinherits⟩
  · rw [hnext₂]
    exact hnew
  · rw [hnext₂]
    exact hnext₁

/-- Each redirected stream of the object is at the other end of the pipe the child has as
that stream, and every end of a pipe made by the call that is in the parent's table
belongs to the object. -/
structure WiredAndOwned (flags : StandardStream) (before : FdState) (object : ForkedChild)
    (child : FdTable Descr) (after : FdState) : Prop where
  streams : ∀ s, flags.has s = true → ∃ id n, before.nextPipe ≤ id ∧
    child.get s.fileno = some (.pipe id s.childEnd) ∧
    object.streamFd s = some n ∧ after.table.get n = some (.pipe id s.parentEnd)
  no_leak : ∀ n id side, before.nextPipe ≤ id →
    after.table.get n = some (.pipe id side) → object.OwnsFd n

theorem fork_wiredAndOwned (hquiet : k.faults = [])
    (hpipes : ∀ n id side, k.table.get n = some (.pipe id side) → id < k.nextPipe)
    (self child : Nat) (flags : StandardStream) :
    Returns (fork self child flags []) k fun r k' =>
      WiredAndOwned flags k r.1 r.2.2.table k' := by
  refine (fork_spec hquiet self child flags).weaken ?_
  rintro ⟨object, side⟩ k' ⟨ids, ps, kc, rfl, hnew, -, hparent, hchild, -⟩
  refine ⟨fun s hs => ?_, fun n id side hid hd => ?_⟩
  · obtain ⟨n, hn, hget⟩ := hparent.stream hs
    exact ⟨ids s, n, hnew.new s, hchild.redirected s hs, hn, hget⟩
  · rcases hparent.only_streams hd with hbase | ⟨s, hs, -⟩
    · exact absurd (hpipes n id side hbase) (Nat.not_lt.mpr hid)
    · exact hparent.ownsFd hs

end ProcessCpp.Core
