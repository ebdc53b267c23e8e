import ProcessCpp.Core.Backtrace
import ProcessCpp.Core.ForkAndRun
import ProcessCpp.Core.ForkFaults

/-!
# The child's branch of `fork` (fork.cpp:78–109, exec.cpp:42–72)

The child runs `main` inside a `try`, after it has redirected its streams there too. What is
thrown in it is reported on `std::cerr` and does not leave the function: the last statement is
an `::exit`, with `failure` unless `main` has returned something else.

The parent learns of this by `wait_for`, which gets eight bits of the status, and by reading
`cerr()`, if it has asked for the stream. The redirection of `stderr` is the last of the three,
so the report of a redirection that fails never goes there: it goes to the `stderr` of the
parent.

- `MainEnd`, `ChildEnd`: how `main` ends, and how the child does;
- `reportUnhandled`, `childBranch`, `forkMain`: the two `catch` blocks, the whole branch, and
  `fork` with it; `execMain` is what `exec` gives to `fork`;
- `redirectStreams_throws`: a redirection that fails leaves `stderr` as it was;
- `fork_tells_parent`: what the parent is told, for every `main` and whatever fails in the child.
-/

namespace ProcessCpp.Core

open ProcessCpp.Base ProcessCpp.Posix
open FdTable FdM

/-! ## The branch -/

/-- What the two `catch` clauses tell apart. -/
inductive Unhandled where
  | std (what : List Char)
  | other

/-- How the function given to `fork` ends: it returns, it throws, or it does not come back and
the process changes its state in another way (`_exit`, a signal, the end of a program that was
executed). -/
inductive MainEnd where
  | returns (status : Status)
  | throws (u : Unhandled)
  | gone (c : StateChange)

/-- What was written to `STDERR_FILENO`, and to what. -/
structure Report where
  text : List Char
  target : Option Descr

/-- The end of a child: its change of state, the state in which `main` was started, if it was,
and the report of an exception. -/
structure ChildEnd where
  change : StateChange
  started : Option FdState
  report : Option Report

/-- The first lines of a report. -/
def Unhandled.text : Unhandled → List Char
  | .std what =>
    ("core::posix::fork(): An unhandled std::exception occured in the child process:\n" ++
      "  what(): ").toList ++ what ++ ['\n']
  | .other =>
    "core::posix::fork(): An unhandled exception occured in the child process.\n".toList

section

variable (cxa : Backtrace.CxaDemangle) (stack : List (SizeT × CxxString))
  (strerror : Errno → List Char)

/-- A `catch` block. What `print_backtrace` threw would leave `fork`, in the child. -/
def reportUnhandled (u : Unhandled) (k : FdState) : Except OutOfRange Report := do
  let text ← Backtrace.printBacktrace cxa stack [' ', ' '] u.text
  return ⟨text, k.table.get Stream.stderr.fileno⟩

/-- The child's branch, to its `::exit`. `what()` of a `std::system_error` is the text for its
code. -/
def childBranch (flags : StandardStream) (ps : Streams) (main : FdState → MainEnd × FdState)
    (k : FdState) : Except OutOfRange ChildEnd :=
  match childSide flags ps k with
  | (.error e, k') => do
    let report ← reportUnhandled cxa stack (.std (strerror e)) k'
    return ⟨forkChild .throws, none, some report⟩
  | (.ok _, k') =>
    match main k' with
    | (.returns status, _) => .ok ⟨forkChild (.returns status), some k', none⟩
    | (.gone c, _) => .ok ⟨c, some k', none⟩
    | (.throws u, k'') => do
      let report ← reportUnhandled cxa stack u k''
      return ⟨forkChild .throws, some k', some report⟩

/-- `core::posix::fork` with both branches. `faults` are the calls that fail in the child. -/
def forkMain (self child : Nat) (flags : StandardStream) (main : FdState → MainEnd × FdState)
    (faults : List (Option Errno)) : FdM (ForkedChild × Except OutOfRange ChildEnd) := do
  let ps ← openStreams flags
  FdM.unwinding ps.dtor sysFork
  let k ← FdM.current
  let object ← parentSide self child ps
  return (object, childBranch cxa stack strerror flags ps main { k with faults })

end

/-- The function that `exec` gives to `fork`, behind the building of its arrays: the setup of
the user, and an `execve` that comes back only when it fails. -/
def execMain (childSetup : FdState → Option Unhandled × FdState)
    (execve : FdState → Except Errno StateChange) (k : FdState) : MainEnd × FdState :=
  match childSetup k with
  | (some u, k') => (.throws u, k')
  | (none, k') =>
    match execve k' with
    | .error _ => (.returns ⟨-1⟩, k')
    | .ok c => (.gone c, k')

/-! ## Redirections that fail -/

section

variable {base : FdTable Descr} {k : FdState} {flags : StandardStream} {ids : Stream → Nat}
  {ps : Streams}

/-- The first error among those of the next `n` calls. -/
def FdState.firstFault (k : FdState) (n : Nat) : Option Errno :=
  (k.faults.take n).findSome? id

theorem FdState.firstFault_succ (k : FdState) (n : Nat) :
    k.firstFault (n + 1) = k.nextFault.or (k.called.firstFault n) := by
  unfold FdState.firstFault FdState.nextFault FdState.called
  cases k.faults with
  | nil => simp
  | cons fault faults =>
    rw [List.take_succ_cons, List.findSome?_cons]
    cases fault <;> rfl

theorem FdState.firstFault_eq_none_iff {k : FdState} {n : Nat} :
    k.firstFault n = none ↔ k.Calm n := by
  induction n generalizing k with
  | zero =>
    exact iff_of_true (by simp [FdState.firstFault]) fun i hi => absurd hi (Nat.not_lt_zero i)
  | succ n ih =>
    rw [k.firstFault_succ, Option.or_eq_none_iff, ih]
    constructor
    · rintro ⟨hfirst, hrest⟩ i hi
      cases i with
      | zero => exact hfirst
      | succ i =>
        have hnone := hrest i (by omega)
        rwa [(After.called k).1, List.drop_drop, Nat.add_comm] at hnone
    · intro hcalm
      rw [Nat.add_comm] at hcalm
      exact ⟨hcalm.nextFault (by omega), hcalm.after (After.called k)⟩

/-- Of some calls one fails: the first, if it is made, or one of the others. -/
theorem FdState.firstFault_cases {want : Bool} {n : Nat} {e : Errno}
    (h : k.firstFault (want.toNat + n) = some e) :
    (want = true ∧ k.nextFault = some e) ∨
      k.Calm want.toNat ∧ ∀ k', After k want.toNat k' → k'.firstFault n = some e := by
  cases want with
  | false =>
    refine .inr ⟨fun i hi => absurd hi (Nat.not_lt_zero i), fun k' hafter => ?_⟩
    rw [show false.toNat + n = n from Nat.zero_add n] at h
    rw [← h, FdState.firstFault, hafter.1]
    rfl
  | true =>
    rw [show true.toNat + n = n + 1 from Nat.add_comm 1 n, k.firstFault_succ] at h
    cases hfirst : k.nextFault with
    | some e' =>
      rw [hfirst] at h
      exact .inl ⟨rfl, h⟩
    | none =>
      rw [hfirst] at h
      refine .inr ⟨fun i hi => ?_, fun k' hafter => ?_⟩
      · obtain rfl : i = 0 := Nat.lt_one_iff.mp hi
        exact hfirst
      · rw [← h, FdState.firstFault, hafter.1]
        show _ = k.called.firstFault n
        rw [FdState.firstFault, (After.called k).1]
        rfl

theorem redirectStream_throws {e : Errno} {fd : Option Nat} {stream : Stream}
    (hfault : k.nextFault = some e) :
    Throws (redirectStream true fd stream) k fun e' k' => e' = e ∧ k'.table = k.table := by
  refine ⟨e, k.called, ?_, rfl, rfl⟩
  simp only [redirectStream, if_true, sysDup2, hfault]

theorem FdM.Throws.weaken {α : Type} {x : FdM α} {post post' : Errno → FdState → Prop}
    (hx : Throws x k post) (himp : ∀ e k', post e k' → post' e k') : Throws x k post' := by
  obtain ⟨e, k', he, hpost⟩ := hx
  exact ⟨e, k', he, himp e k' hpost⟩

/-- What comes behind a computation that returns may throw. -/
theorem FdM.Returns.bind_throws {α β : Type} {x : FdM α} {f : α → FdM β}
    {mid : α → FdState → Prop} {post : Errno → FdState → Prop} (hx : Returns x k mid)
    (hf : ∀ a k', mid a k' → Throws (f a) k' post) : Throws (x >>= f) k post := by
  obtain ⟨a, k', hax, hmid⟩ := hx
  obtain ⟨e, k'', hbf, hpost⟩ := hf a k' hmid
  exact ⟨e, k'', by rw [bind_eq hax, hbf], hpost⟩

/-- The redirections throw when one of them fails, with the error of the first that does, and
`stderr`, the last one, is then as it was. -/
theorem redirectStreams_throws {e : Errno} (hfault : k.firstFault flags.count = some e)
    (hends : EndsReady flags ids ps k.table) :
    Throws (redirectStreams flags ps) k fun e' k' =>
      e' = e ∧ k'.table.get 2 = k.table.get 2 := by
  unfold StandardStream.count at hfault
  unfold redirectStreams
  -- stdin
  rcases FdState.firstFault_cases hfault with ⟨hwant, hfails⟩ | ⟨hcalm₁, hrest₁⟩
  · rw [hwant]
    refine Throws.bind ((redirectStream_throws hfails).weaken ?_) _
    rintro _ k' ⟨rfl, hsame⟩
    exact ⟨rfl, by rw [hsame]⟩
  refine (redirectStream_spec hcalm₁ (hends.find .stdin)).bind_throws ?_
  rintro _ k₁ ⟨hafter₁, hget₁⟩
  have hhigh₁ : ∀ n, 0 < n → k₁.table.get n = k.table.get n := by
    intro n hn
    rw [hget₁, if_neg fun h => Nat.ne_of_gt hn h.2]
  -- stdout
  rcases FdState.firstFault_cases (hrest₁ k₁ hafter₁) with ⟨hwant, hfails⟩ | ⟨hcalm₂, hrest₂⟩
  · rw [hwant]
    refine Throws.bind ((redirectStream_throws hfails).weaken ?_) _
    rintro _ k' ⟨rfl, hsame⟩
    exact ⟨rfl, by rw [hsame, hhigh₁ 2 (by decide)]⟩
  refine (redirectStream_spec hcalm₂ (hends.find_after (fun n hn => hhigh₁ n (by omega))
    (s := .stdout) nofun)).bind_throws ?_
  rintro _ k₂ ⟨hafter₂, hget₂⟩
  have htwo₂ : k₂.table.get 2 = k.table.get 2 := by
    rw [hget₂, if_neg fun h => by cases h.2]
    exact hhigh₁ 2 (by decide)
  -- stderr
  have hlast : k₂.firstFault ((flags.has .stderr).toNat + 0) = some e := hrest₂ k₂ hafter₂
  rcases FdState.firstFault_cases hlast with ⟨hwant, hfails⟩ | ⟨-, hnone⟩
  · rw [hwant]
    refine (redirectStream_throws hfails).weaken ?_
    rintro _ k' ⟨rfl, hsame⟩
    exact ⟨rfl, by rw [hsame, htwo₂]⟩
  · -- of no calls none fails
    cases hnone { k₂ with faults := k₂.faults.drop (flags.has .stderr).toNat } ⟨rfl, rfl⟩

theorem childSide_throws {e : Errno} (ho : OpenedStreams flags ps)
    (h : base.Adds k.table (ps.descrs ids)) (hfault : k.firstFault flags.count = some e) :
    Throws (childSide flags ps) k fun e' k' =>
      e' = e ∧ ∀ d, base.get 2 = some d → k'.table.get 2 = some d := by
  unfold childSide
  refine (closeParentEnds_adds h).bind_throws ?_
  rintro _ k₁ ⟨rfl, h₁, hafter₁⟩
  have hfault₁ : k₁.firstFault flags.count = some e := by
    rw [← hfault, FdState.firstFault, hafter₁.1, List.drop_zero]
    rfl
  refine Throws.bind ((redirectStreams_throws hfault₁ (ho.endsReady h₁)).weaken ?_) _
  rintro _ k' ⟨rfl, htwo⟩
  refine ⟨rfl, fun d hd => ?_⟩
  rw [htwo]
  exact h₁.get_base hd

end

/-! ## What the parent is told -/

/-- The status ends in eight zeros, or the process has gone with a zero. -/
def MainEnd.Zero : MainEnd → Prop
  | .returns status => status.toInt % 256 = 0
  | .throws _ => False
  | .gone c => c = .terminated (.exited 0)

/-- What `wait_for` returns for a child that has exited with `success`. -/
def toldSuccess : Except Errno Wait.Result :=
  .ok { status := .exited, detail := .ifExited .success }

theorem waitFor_eq_toldSuccess_iff {pid : Int} (hpid : pid ≠ 0) (c : StateChange) :
    waitFor (.ok (pid, c.word)) = toldSuccess ↔ c = .terminated (.exited 0) := by
  rw [waitFor_stateChange hpid]
  unfold toldSuccess
  constructor
  · intro h
    cases c with
    | terminated t =>
      cases t with
      | exited code =>
        have hcode : (code.val : Int) = 0 := by
          injection h with h
          injection h with _ hdetail
          injection hdetail with hstatus
          exact congrArg Status.toInt hstatus
        have hzero : code = 0 := Fin.ext (Int.ofNat_inj.mp hcode)
        rw [hzero]
      | signaled => cases h
    | stopped | continued => cases h
  · rintro rfl
    rfl

theorem forkChild_returns_zero_iff (status : Status) :
    forkChild (.returns status) = .terminated (.exited 0) ↔ status.toInt % 256 = 0 := by
  unfold forkChild
  rw [StateChange.terminated.injEq, Termination.exited.injEq, Fin.ext_iff]
  show (status.toInt % 256).toNat = 0 ↔ _
  omega

theorem forkChild_throws_ne_zero : forkChild .throws ≠ .terminated (.exited 0) := by
  decide

section

variable (cxa : Backtrace.CxaDemangle) (stack : List (SizeT × CxxString))
  (strerror : Errno → List Char)

/-- No exception leaves a `catch` block. -/
theorem reportUnhandled_returns (u : Unhandled) (k : FdState) :
    ∃ lines, reportUnhandled cxa stack u k = .ok ⟨u.text ++ lines, k.table.get 2⟩ := by
  obtain ⟨texts, -, hprint⟩ := Backtrace.printBacktrace_prints cxa stack [' ', ' '] u.text
  refine ⟨Backtrace.printedLines [' ', ' '] 0 (stack.take Backtrace.maxFrames) texts, ?_⟩
  unfold reportUnhandled
  rw [hprint]
  rfl

end

/-- What there is to know of a child whose branch began in a copy of `base` with pipes `ids`. -/
structure ChildTold (strerror : Errno → List Char) (flags : StandardStream) (ids : Stream → Nat)
    (base : FdTable Descr) (main : FdState → MainEnd × FdState) (fault : Option Errno)
    (e : ChildEnd) : Prop where
  /-- `main` is run unless a redirection fails -/
  started : e.started.isSome = true ↔ fault = none
  /-- the child exits with `success` -/
  success : e.change = .terminated (.exited 0) ↔
    ∃ start, e.started = some start ∧ (main start).1.Zero
  silent : e.report = none ↔
    ∃ start, e.started = some start ∧ ∀ u, (main start).1 ≠ .throws u
  /-- a report begins with what was thrown: the error of the first redirection that failed, or
  the exception of `main` -/
  names : ∀ r, e.report = some r →
    (e.started = none ∧
      ∃ errno, fault = some errno ∧ (Unhandled.std (strerror errno)).text <+: r.text) ∨
      ∃ start u, e.started = some start ∧ (main start).1 = .throws u ∧ u.text <+: r.text
  /-- a redirection that fails is reported where the parent reports -/
  early : e.started = none → ∀ r, e.report = some r → ∀ d, base.get 2 = some d →
    r.target = some d
  /-- an exception of `main` is reported on whatever `main` has left as `stderr` -/
  target : ∀ start r, e.started = some start → e.report = some r →
    r.target = (main start).2.table.get 2
  /-- and if `main` has left `stderr` alone, into the pipe if there is one -/
  late : ∀ start r, e.started = some start → e.report = some r →
    (main start).2.table.get 2 = start.table.get 2 →
    (flags.has .stderr = true → r.target = some (.pipe (ids .stderr) .write)) ∧
      (flags.has .stderr = false → ∀ d, base.get 2 = some d → r.target = some d)

section

variable {base : FdTable Descr} {k : FdState} {flags : StandardStream} {ids : Stream → Nat}
  {ps : Streams}

theorem childBranch_told (cxa : Backtrace.CxaDemangle) (stack : List (SizeT × CxxString))
    (strerror : Errno → List Char) (main : FdState → MainEnd × FdState)
    (ho : OpenedStreams flags ps) (h : base.Adds k.table (ps.descrs ids)) :
    ∃ e, childBranch cxa stack strerror flags ps main k = .ok e ∧
      ChildTold strerror flags ids base main (k.firstFault flags.count) e := by
  unfold childBranch
  cases hfault : k.firstFault flags.count with
  | none =>
    -- `main` starts in `k'` and ends in `k''`
    obtain ⟨ps', k', hside, hwired, -, -⟩ :=
      childSide_adds ho h (FdState.firstFault_eq_none_iff.mp hfault)
    rw [hside]
    have htwo : ∀ k'' : FdState, k''.table.get 2 = k'.table.get 2 →
        (flags.has .stderr = true → k''.table.get 2 = some (.pipe (ids .stderr) .write)) ∧
          (flags.has .stderr = false → ∀ d, base.get 2 = some d → k''.table.get 2 = some d) := by
      intro k'' hsame
      rw [hsame]
      exact ⟨hwired.redirected .stderr, hwired.kept .stderr⟩
    dsimp only
    generalize hmain : main k' = r
    obtain ⟨outcome, k''⟩ := r
    cases outcome with
    | returns status =>
      refine ⟨_, rfl, ⟨by simp, ?_, by simp [hmain], nofun, nofun, nofun, nofun⟩⟩
      simp [hmain, MainEnd.Zero, forkChild_returns_zero_iff]
    | gone c =>
      refine ⟨_, rfl, ⟨by simp, by simp [hmain, MainEnd.Zero], by simp [hmain], nofun,
        nofun, nofun, nofun⟩⟩
    | throws u =>
      obtain ⟨lines, hreport⟩ := reportUnhandled_returns cxa stack u k''
      dsimp only
      rw [hreport]
      refine ⟨_, rfl, ⟨by simp, ?_, by simp [hmain], ?_, nofun, ?_, ?_⟩⟩
      · simp [hmain, MainEnd.Zero, forkChild_throws_ne_zero]
      · rintro r ⟨⟩
        exact .inr ⟨k', u, rfl, congrArg Prod.fst hmain, List.prefix_append ..⟩
      · rintro start r ⟨⟩ ⟨⟩
        rw [hmain]
      · rintro start r ⟨⟩ ⟨⟩ hsame
        rw [hmain] at hsame
        exact htwo k'' hsame
  | some errno =>
    -- the redirections throw, and `stderr` is still the one of the parent
    obtain ⟨e, k', hside, rfl, htwo⟩ := childSide_throws ho h hfault
    rw [hside]
    obtain ⟨lines, hreport⟩ := reportUnhandled_returns cxa stack (.std (strerror e)) k'
    dsimp only
    rw [hreport]
    refine ⟨_, rfl, ⟨by simp, ?_, by simp, ?_, ?_, nofun, nofun⟩⟩
    · simp [forkChild_throws_ne_zero]
    · rintro r ⟨⟩
      exact .inl ⟨rfl, e, rfl, List.prefix_append ..⟩
    · rintro - r ⟨⟩ d hd
      exact htwo d hd

end

/-- `fork` with both branches, in a process whose own calls succeed. -/
theorem forkMain_returns (cxa : Backtrace.CxaDemangle) (stack : List (SizeT × CxxString))
    (strerror : Errno → List Char) (self child : Nat) (flags : StandardStream)
    (main : FdState → MainEnd × FdState) (faults : List (Option Errno)) {k : FdState}
    (hquiet : k.faults = []) :
    Returns (forkMain cxa stack strerror self child flags main faults) k fun r k' => ∃ ids e,
      r.2 = .ok e ∧ ParentWired flags ids k.table k'.table r.1 ∧
      ChildTold strerror flags ids k.table main ({ k with faults : FdState }.firstFault flags.count)
        e := by
  have hstart : Owns k.table k 0 := ⟨Adds.nil _, hquiet⟩
  unfold forkMain
  refine (openStreams_spec hstart flags).bind ?_
  rintro ps k₁ ⟨ids, -, ho, -, -, h₁⟩
  refine ((sysFork_spec h₁).unwinding _).bind ?_
  rintro _ k₂ rfl
  refine Returns.current_bind ?_
  refine (parentSide_wired ho h₁.adds (FdState.calm_of_quiet h₁.quiet _) self child).bind ?_
  rintro object k₃ ⟨hparent, -, -⟩
  have hchild : k.table.Adds { k₂ with faults : FdState }.table (ps.descrs ids) := h₁.adds
  obtain ⟨e, hbranch, htold⟩ := childBranch_told cxa stack strerror main ho hchild
  exact Returns.pure ⟨ids, e, hbranch, hparent, htold⟩

/-- **The parent is told what became of `main`**: whatever `main` does and whichever calls fail
in the child, a `fork` in a process whose own calls succeed returns, and the child ends without
ever leaving the function. `main` is run unless a redirection fails. `wait_for` tells of a
success exactly when `main` was run and left a status with eight zeros at its end. A report says
what was thrown: the error of the first redirection that failed, on the `stderr` of the parent,
or the exception of `main`, on what `main` has left as `stderr`. If `main` has left that alone,
it is the pipe of `cerr()` when the stream was redirected, and else the `stderr` of the
parent. -/
theorem fork_tells_parent (cxa : Backtrace.CxaDemangle) (stack : List (SizeT × CxxString))
    (strerror : Errno → List Char) (self child : Nat) (hchild : child ≠ 0)
    (flags : StandardStream) (main : FdState → MainEnd × FdState) (faults : List (Option Errno))
    (k : FdState) (hquiet : k.faults = []) :
    ∃ object e k',
      forkMain cxa stack strerror self child flags main faults k = (.ok (object, .ok e), k') ∧
      (e.started.isSome = true ↔ { k with faults : FdState }.firstFault flags.count = none) ∧
      (waitFor (.ok (child, e.change.word)) = toldSuccess ↔
        ∃ start, e.started = some start ∧ (main start).1.Zero) ∧
      (e.report = none ↔ ∃ start, e.started = some start ∧ ∀ u, (main start).1 ≠ .throws u) ∧
      ∀ r, e.report = some r →
        ((e.started = none ∧ ∃ errno,
            { k with faults : FdState }.firstFault flags.count = some errno ∧
              (Unhandled.std (strerror errno)).text <+: r.text) ∨
          ∃ start u, e.started = some start ∧ (main start).1 = .throws u ∧ u.text <+: r.text) ∧
        (e.started = none → ∀ d, k.table.get 2 = some d → r.target = some d) ∧
          ∀ start, e.started = some start → r.target = (main start).2.table.get 2 ∧
            ((main start).2.table.get 2 = start.table.get 2 →
              (flags.has .stderr = true → ∃ n id, object.streamFd .stderr = some n ∧
                k'.table.get n = some (.pipe id .read) ∧ r.target = some (.pipe id .write)) ∧
              (flags.has .stderr = false → ∀ d, k.table.get 2 = some d → r.target = some d)) := by
  obtain ⟨⟨object, side⟩, k', hrun, ids, e, hside, hparent, htold⟩ :=
    forkMain_returns cxa stack strerror self child flags main faults hquiet
  obtain rfl : side = .ok e := hside
  have hpid : (child : Int) ≠ 0 := Int.natCast_ne_zero.mpr hchild
  refine ⟨object, e, k', hrun, htold.started, ?_, htold.silent,
    fun r hr => ⟨htold.names r hr, ?_, fun start hsome => ⟨htold.target start r hsome hr, ?_⟩⟩⟩
  · rw [waitFor_eq_toldSuccess_iff hpid]
    exact htold.success
  · exact fun hnone => htold.early hnone r hr
  · intro hsame
    obtain ⟨hpipe, hplain⟩ := htold.late start r hsome hr hsame
    refine ⟨fun herr => ?_, hplain⟩
    obtain ⟨n, hn, hget⟩ := hparent.stream herr
    exact ⟨n, ids .stderr, hn, hget, hpipe herr⟩

/-- `exec` of a program that is not there. -/
def missingProgram : FdState → MainEnd × FdState :=
  execMain (fun k => (none, k)) fun _ => .error (.other 2)

/-- The name of one error. -/
def oneName (e : Errno) : List Char := if e = .other 16 then "busy".toList else []

/-- The parent is not told of a success, but nothing is reported either. If a `dup2` fails
before, the report says why. -/
theorem fork_tells_parent_missingProgram :
    (∃ object e k', forkMain (fun _ => ⟨none, -2⟩) [] (fun _ => []) 1 7 ⟨4⟩ missingProgram []
        (stdioState []) = (.ok (object, .ok e), k') ∧
      e.started.isSome = true ∧ waitFor (.ok (7, e.change.word)) ≠ toldSuccess ∧
      e.report = none) ∧
    ∃ object e k', forkMain (fun _ => ⟨none, -2⟩) [] oneName 1 7 ⟨6⟩ missingProgram
        [none, some (.other 16)] (stdioState []) = (.ok (object, .ok e), k') ∧
      e.started = none ∧
      ∃ r, e.report = some r ∧ (Unhandled.std "busy".toList).text <+: r.text := by
  constructor
  · obtain ⟨object, e, k', hrun, hstarted, hsuccess, hsilent, -⟩ := fork_tells_parent
      (fun _ => ⟨none, -2⟩) [] (fun _ => []) 1 7 (by decide) ⟨4⟩ missingProgram []
      (stdioState []) rfl
    have hsome := hstarted.mpr rfl
    obtain ⟨start, hstart⟩ := Option.isSome_iff_exists.mp hsome
    refine ⟨object, e, k', hrun, hsome, fun htold => ?_, hsilent.mpr ⟨start, hstart, nofun⟩⟩
    obtain ⟨_, -, hzero⟩ := hsuccess.mp htold
    have hrest : (-1 : Int) % 256 ≠ 0 := by decide
    exact hrest hzero
  · obtain ⟨object, e, k', hrun, hstarted, -, hsilent, hreport⟩ := fork_tells_parent
      (fun _ => ⟨none, -2⟩) [] oneName 1 7 (by decide) ⟨6⟩ missingProgram
      [none, some (.other 16)] (stdioState []) rfl
    have hfault : { stdioState [] with faults := [none, some (.other 16)] }.firstFault
        (⟨6⟩ : StandardStream).count = some (.other 16) := rfl
    have hnone : e.started = none := by
      rw [← Option.not_isSome_iff_eq_none, hstarted, hfault]
      exact nofun
    have hreported : e.report ≠ none := by
      rw [Ne, hsilent, hnone]
      exact nofun
    obtain ⟨r, hr⟩ := Option.ne_none_iff_exists'.mp hreported
    refine ⟨object, e, k', hrun, hnone, r, hr, ?_⟩
    rcases (hreport r hr).1 with ⟨-, errno, herrno, htext⟩ | ⟨start, u, hstart, -⟩
    · cases hfault.symm.trans herrno
      exact htext
    · cases hnone.symm.trans hstart

end ProcessCpp.Core
