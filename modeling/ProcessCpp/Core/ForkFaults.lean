import ProcessCpp.Core.Fork

/-!
# `core::posix::fork` when system calls fail

`pipe` and `::fork` are checked and throw. `dup` is not: the copy constructor and the
assignment of `Pipe` take its `-1` for an absent descriptor. A `fork` that runs into a limit
between two calls therefore may return an object without the stream that was asked for, or
whose child has lost its end, instead of throwing "in case of errors" (fork.h:34).

- `failing calls faults`: which calls of a sequence fail;
- `forkCalls`: the calls of `fork` that can fail, in order;
- `AllOrNothing`: what the parent may expect;
- `fork_allOrNothing_iff`: it gets that exactly if a `pipe` or the `::fork` fails, or no `dup`
  does.

The faults in the parent are arbitrary, so a limit on the number of descriptors is one of the
cases: the faults are then those of the calls that would have gone beyond it. The child's own
calls, its three `dup2`, do not fail here; ChildBranch is about those that do.
-/

namespace ProcessCpp.Core

open ProcessCpp.Base ProcessCpp.Posix

/-! ## Calls that fail -/

/-- The calls of `fork` that can fail in the parent. -/
inductive SysCall where
  | pipe
  | dup
  | fork
deriving DecidableEq, Repr

/-- Those of a sequence of calls that fail. -/
def failing : List SysCall → List (Option Errno) → List SysCall
  | [], _ => []
  | c :: cs, faults =>
    if faults.head?.join.isSome then c :: failing cs faults.tail else failing cs faults.tail

theorem failing_append (cs ds : List SysCall) (faults : List (Option Errno)) :
    failing (cs ++ ds) faults = failing cs faults ++ failing ds (faults.drop cs.length) := by
  induction cs generalizing faults with
  | nil => rfl
  | cons c cs ih =>
    rw [List.cons_append, failing, failing, ih, List.length_cons, ← List.drop_tail]
    by_cases h : faults.head?.join.isSome = true
    · rw [if_pos h, if_pos h, List.cons_append]
    · rw [if_neg h, if_neg h]

theorem mem_of_mem_failing {c : SysCall} {cs : List SysCall} {faults : List (Option Errno)}
    (h : c ∈ failing cs faults) : c ∈ cs := by
  induction cs generalizing faults with
  | nil => exact h
  | cons d cs ih =>
    rw [failing] at h
    split at h
    · rcases List.mem_cons.mp h with rfl | h
      · exact List.mem_cons_self
      · exact List.mem_cons_of_mem _ (ih h)
    · exact List.mem_cons_of_mem _ (ih h)

/-- The calls for a stream: the temporary, and its two descriptors duplicated. -/
def streamCalls (want : Bool) : List SysCall := if want then [.pipe, .dup, .dup] else []

/-- The call that sets up the static of `Pipe::invalid`. -/
def invalidCall (invalidDone : Bool) : List SysCall := if invalidDone then [] else [.pipe]

/-- The calls for the three streams. -/
def threeCalls (flags : StandardStream) : List SysCall :=
  streamCalls (flags.has .stdin) ++
    (streamCalls (flags.has .stdout) ++ streamCalls (flags.has .stderr))

/-- The calls up to `::fork`. -/
def openCalls (invalidDone : Bool) (flags : StandardStream) : List SysCall :=
  invalidCall invalidDone ++ threeCalls flags

/-- The call for a stream when the object is made. -/
def objectCall (want : Bool) : List SysCall := if want then [.dup] else []

/-- The calls after `::fork`, in the parent. -/
def objectCalls (flags : StandardStream) : List SysCall :=
  objectCall (flags.has .stdin) ++
    (objectCall (flags.has .stdout) ++ objectCall (flags.has .stderr))

/-- The calls of `fork` that can fail in the parent, in order. -/
def forkCalls (invalidDone : Bool) (flags : StandardStream) : List SysCall :=
  openCalls invalidDone flags ++ (.fork :: objectCalls flags)

open FdTable FdM

variable {base : FdTable Descr} {k k' k'' : FdState} {own : Multiset (Nat × Descr)}

/-! ## Opening the pipes -/

theorem fork_not_mem_openCalls {invalidDone : Bool} {flags : StandardStream} :
    .fork ∉ openCalls invalidDone flags := by
  have hstream : ∀ want : Bool, SysCall.fork ∉ streamCalls want := by decide
  have hinvalid : SysCall.fork ∉ invalidCall invalidDone := by
    revert invalidDone
    decide
  rw [openCalls, threeCalls, List.mem_append, List.mem_append, List.mem_append]
  rintro (h | h | h | h)
  · exact hinvalid h
  all_goals exact hstream _ h

/-- What the first fault, and the two after it, mean for the calls of one stream. -/
theorem mem_failing_streamCalls (faults : List (Option Errno)) :
    (SysCall.pipe ∈ failing (streamCalls true) faults ↔ faults.head?.join.isSome = true) ∧
      (SysCall.dup ∈ failing (streamCalls true) faults ↔
        (faults.drop 1).head?.join.isSome = true ∨ (faults.drop 2).head?.join.isSome = true) := by
  have hdrop : faults.drop 2 = faults.tail.tail := by
    rw [← List.drop_one, ← List.drop_one, List.drop_drop]
  rw [List.drop_one, hdrop]
  simp only [streamCalls, if_true, failing]
  cases faults.head?.join.isSome <;> cases faults.tail.head?.join.isSome <;>
    cases faults.tail.tail.head?.join.isSome <;> simp

/-- The pipe of a stream that could not be opened: nothing is left of it. -/
theorem openStream_throws {want : Bool} (hfail : .pipe ∈ failing (streamCalls want) k.faults) :
    Throws (openStream want Pipe.closed) k fun _ k' => k'.table = k.table := by
  cases want with
  | false => exact absurd hfail List.not_mem_nil
  | true =>
    obtain ⟨e, he⟩ := Option.isSome_iff_exists.mp ((mem_failing_streamCalls _).1.mp hfail)
    obtain ⟨e', k', hthrow, rfl⟩ := Pipe.ctor_throws (k := k) he
    have hctor : Throws Pipe.ctor k fun _ k' => k'.table = k.table := ⟨e', _, hthrow, rfl⟩
    exact hctor.bind _

/-- The pipe of a stream that was opened: it has both its ends if no `dup` failed, and lacks
one if some did. -/
theorem openStream_opened {want : Bool} (h : base.Adds k.table own)
    (hok : .pipe ∉ failing (streamCalls want) k.faults) :
    Returns (openStream want Pipe.closed) k fun p k' =>
      base.Adds k'.table (readEnd p.readFd k.nextPipe + (writeEnd p.writeFd k.nextPipe + own)) ∧
      After k (streamCalls want).length k' ∧ k'.nextPipe = k.nextPipe + want.toNat ∧
      (want = false → p = Pipe.closed) ∧
      (.dup ∉ failing (streamCalls want) k.faults → Opened want p) ∧
      (.dup ∈ failing (streamCalls want) k.faults → p.readFd = none ∨ p.writeFd = none) := by
  cases want with
  | false =>
    refine Returns.pure ⟨?_, After.refl k, rfl, fun _ => rfl, fun _ => ⟨rfl, rfl, nofun, nofun⟩,
      fun hdup => absurd hdup List.not_mem_nil⟩
    simpa [Pipe.closed] using h
  | true =>
    obtain ⟨hpipe, hdup⟩ := mem_failing_streamCalls k.faults
    rw [hpipe, Bool.not_eq_true, Option.isSome_eq_false_iff, Option.isNone_iff_eq_none] at hok
    refine (openStream_adds h fun _ => hok).weaken ?_
    rintro p k' ⟨hadds, hafter, hnext, hread, hwrite, hlow, hlt⟩
    rw [Bool.true_and] at hread hwrite
    refine ⟨hadds, hafter, hnext, fun hfalse => absurd hfalse.symm Bool.false_ne_true, ?_, ?_⟩
    · -- both copies were made, the second above the first
      intro hno
      rw [hdup, not_or, Bool.not_eq_true, Bool.not_eq_true, Option.isSome_eq_false_iff,
        Option.isSome_eq_false_iff] at hno
      rw [hno.1] at hread
      rw [hno.2] at hwrite
      refine ⟨hread, hwrite, hlow, fun m hm => ?_⟩
      obtain ⟨n, hn⟩ := Option.isSome_iff_exists.mp hread
      have := hlow n hn
      have := hlt n m hn hm
      omega
    · intro hsome
      rcases hdup.mp hsome with hfirst | hsecond
      · left
        rw [Option.isNone_eq_false_iff.mpr hfirst] at hread
        simpa using hread
      · right
        rw [Option.isNone_eq_false_iff.mpr hsecond] at hwrite
        simpa using hwrite

/-- What the first fault means for the call that sets up the static. -/
theorem mem_failing_invalidCall (invalidDone : Bool) (faults : List (Option Errno)) :
    .pipe ∈ failing (invalidCall invalidDone) faults ↔
      invalidDone = false ∧ faults.head?.join.isSome = true := by
  cases invalidDone <;> simp [invalidCall, failing]

theorem invalidCall_length (invalidDone : Bool) :
    (invalidCall invalidDone).length = (!invalidDone).toNat := by
  cases invalidDone <;> rfl

theorem Pipe.invalid_throws (hfail : .pipe ∈ failing (invalidCall k.invalidDone) k.faults) :
    Throws Pipe.invalid k fun _ k' => k'.table = k.table := by
  obtain ⟨hdone, hfault⟩ := (mem_failing_invalidCall _ _).mp hfail
  obtain ⟨e, he⟩ := Option.isSome_iff_exists.mp hfault
  obtain ⟨e', k', hthrow, rfl⟩ := Pipe.ctor_throws (k := k) he
  have hctor : Throws Pipe.ctor k fun _ k' => k'.table = k.table := ⟨e', _, hthrow, rfl⟩
  show Throws (if k.invalidDone then _ else _) k _
  rw [hdone, if_neg Bool.false_ne_true]
  exact hctor.bind _

theorem Pipe.invalid_returns (h : base.Adds k.table own)
    (hok : .pipe ∉ failing (invalidCall k.invalidDone) k.faults) :
    Returns Pipe.invalid k fun p k' => p = Pipe.closed ∧ base.Adds k'.table own ∧
      k'.faults = k.faults.drop (invalidCall k.invalidDone).length ∧ k'.invalidDone = true ∧
      k.nextPipe ≤ k'.nextPipe := by
  rw [mem_failing_invalidCall, not_and, Bool.not_eq_true, Option.isSome_eq_false_iff,
    Option.isNone_iff_eq_none] at hok
  rw [invalidCall_length]
  exact Pipe.invalid_adds h hok

/-- The order in which the locals of `fork` are destroyed. -/
theorem Streams.descrs_add (ps : Streams) (ids : Stream → Nat) (own : Multiset (Nat × Descr)) :
    ps.descrs ids + own = readEnd ps.stderr.readFd (ids .stderr) +
      (writeEnd ps.stderr.writeFd (ids .stderr) + (readEnd ps.stdout.readFd (ids .stdout) +
        (writeEnd ps.stdout.writeFd (ids .stdout) + (readEnd ps.stdin.readFd (ids .stdin) +
          (writeEnd ps.stdin.writeFd (ids .stdin) + own))))) := by
  unfold Streams.descrs Pipe.descrs
  abel

/-- The locals are destroyed when the pipe of a stream cannot be opened. -/
theorem openStream_unwound {want : Bool} {ps : Streams} (ids : Stream → Nat)
    (h : base.Adds k.table (ps.descrs ids))
    (hfail : .pipe ∈ failing (streamCalls want) k.faults) :
    Throws (FdM.unwinding ps.dtor (openStream want Pipe.closed)) k fun _ k' =>
      k'.table = base := by
  refine (openStream_throws hfail).unwinding fun _ k' htable => ?_
  rw [← htable, ← add_zero (ps.descrs ids), ps.descrs_add] at h
  refine (Streams.dtor_adds h).weaken fun _ k'' hend => ?_
  exact hend.1.eq_base

/-- The three locals of `fork` when they have been set up: complete if no `dup` has failed,
and with an end missing somewhere if one has. -/
structure SetUp (flags : StandardStream) (k : FdState) (ps : Streams) (ids : Stream → Nat)
    (k' : FdState) : Prop where
  new : NewPipes flags ids k.nextPipe k'.nextPipe
  adds : k.table.Adds k'.table (ps.descrs ids)
  unwanted : ∀ s, flags.has s = false → ps.parentFd s = none ∧ ps.childFd s = none

/-- A stream whose calls fail was asked for. -/
theorem has_of_mem_failing {want : Bool} {c : SysCall} {faults : List (Option Errno)}
    (h : c ∈ failing (streamCalls want) faults) : want = true := by
  cases want with
  | true => rfl
  | false => exact absurd h List.not_mem_nil

/-- The assignments of `fork`, to locals that are still without descriptors. -/
def openThree (flags : StandardStream) : FdM Streams := do
  let stdin ← FdM.unwinding (Streams.dtor ⟨.closed, .closed, .closed⟩)
    (openStream (flags.has .stdin) .closed)
  let stdout ← FdM.unwinding (Streams.dtor ⟨stdin, .closed, .closed⟩)
    (openStream (flags.has .stdout) .closed)
  let stderr ← FdM.unwinding (Streams.dtor ⟨stdin, stdout, .closed⟩)
    (openStream (flags.has .stderr) .closed)
  return ⟨stdin, stdout, stderr⟩

/-- The descriptors of the locals while only the first ones have been opened. -/
theorem descrs_closed (stdin stdout : Pipe) (ids : Stream → Nat) :
    Streams.descrs ⟨stdin, stdout, .closed⟩ ids =
      stdout.descrs (ids .stdout) + stdin.descrs (ids .stdin) := by
  simp only [Streams.descrs, Pipe.descrs, Pipe.closed, owned_none]
  abel

theorem openThree_cases (flags : StandardStream) (k : FdState) :
    (.pipe ∈ failing (threeCalls flags) k.faults ∧
      Throws (openThree flags) k fun _ k' => k'.table = k.table) ∨
    (.pipe ∉ failing (threeCalls flags) k.faults ∧
      Returns (openThree flags) k fun ps k' => ∃ ids, SetUp flags k ps ids k' ∧
        After k (threeCalls flags).length k' ∧
        (.dup ∉ failing (threeCalls flags) k.faults → OpenedStreams flags ps) ∧
        (.dup ∈ failing (threeCalls flags) k.faults →
          ∃ s, flags.has s = true ∧ (ps.parentFd s = none ∨ ps.childFd s = none))) := by
  have h₀ : k.table.Adds k.table 0 := Adds.nil _
  rw [threeCalls, failing_append, failing_append]
  -- stdin
  by_cases hin : .pipe ∈ failing (streamCalls (flags.has .stdin)) k.faults
  · refine .inl ⟨List.mem_append_left _ hin, Throws.bind ?_ _⟩
    refine openStream_unwound (fun _ => 0) ?_ hin
    simpa [Streams.descrs, Pipe.descrs, Pipe.closed] using h₀
  have hrun₁ := (openStream_opened h₀ hin).unwinding (Streams.dtor ⟨.closed, .closed, .closed⟩)
  obtain ⟨stdin, k₁, hrun₁, h₁, hafter₁, hnext₁, hclosed₁, hall₁, hsome₁⟩ := hrun₁
  rw [← hafter₁.1]
  -- stdout
  by_cases hout : .pipe ∈ failing (streamCalls (flags.has .stdout)) k₁.faults
  · refine .inl ⟨List.mem_append_right _ (List.mem_append_left _ hout), ?_⟩
    have hlocals : k.table.Adds k₁.table
        (Streams.descrs ⟨stdin, .closed, .closed⟩ fun _ => k.nextPipe) := by
      rw [descrs_closed]
      simpa [Pipe.descrs, Pipe.closed] using h₁
    obtain ⟨e, k', hrun, htable⟩ := openStream_unwound _ hlocals hout
    exact ⟨e, k', by rw [openThree, bind_eq hrun₁, bind_error hrun], htable⟩
  have hrun₂ := (openStream_opened h₁ hout).unwinding (Streams.dtor ⟨stdin, .closed, .closed⟩)
  obtain ⟨stdout, k₂, hrun₂, h₂, hafter₂, hnext₂, hclosed₂, hall₂, hsome₂⟩ := hrun₂
  rw [← hafter₂.1]
  -- stderr
  by_cases herr : .pipe ∈ failing (streamCalls (flags.has .stderr)) k₂.faults
  · refine .inl ⟨List.mem_append_right _ (List.mem_append_right _ herr), ?_⟩
    have hlocals : k.table.Adds k₂.table
        (Streams.descrs ⟨stdin, stdout, .closed⟩ (Stream.numbered k.nextPipe k₁.nextPipe 0)) := by
      rw [descrs_closed]
      simpa [Pipe.descrs, Stream.numbered, add_assoc] using h₂
    obtain ⟨e, k', hrun, htable⟩ := openStream_unwound _ hlocals herr
    exact ⟨e, k', by rw [openThree, bind_eq hrun₁, bind_eq hrun₂, bind_error hrun], htable⟩
  have hrun₃ := (openStream_opened h₂ herr).unwinding (Streams.dtor ⟨stdin, stdout, .closed⟩)
  obtain ⟨stderr, k₃, hrun₃, h₃, hafter₃, hnext₃, hclosed₃, hall₃, hsome₃⟩ := hrun₃
  have hnew := NewPipes.of_counters (Nat.le_refl k.nextPipe) hnext₁ hnext₂ hnext₃
  refine .inr ⟨by simp [hin, hout, herr], ⟨stdin, stdout, stderr⟩, k₃, ?_, _, ⟨hnew, ?_, ?_⟩,
    ?_, ?_, ?_⟩
  · rw [openThree, bind_eq hrun₁, bind_eq hrun₂, bind_eq hrun₃]
    rfl
  · rw [← add_zero (Streams.descrs _ _), Streams.descrs_add]
    exact h₃
  · intro s hs
    cases s with
    | stdin => simp [Streams.parentFd, Streams.childFd, hclosed₁ hs, Pipe.closed]
    | stdout => simp [Streams.parentFd, Streams.childFd, hclosed₂ hs, Pipe.closed]
    | stderr => simp [Streams.parentFd, Streams.childFd, hclosed₃ hs, Pipe.closed]
  · have hafter := (hafter₁.trans hafter₂).trans hafter₃
    simpa [add_assoc] using hafter
  · intro hno
    simp only [List.mem_append, not_or] at hno
    exact ⟨hall₁ hno.1, hall₂ hno.2.1, hall₃ hno.2.2⟩
  · intro hdup
    simp only [List.mem_append] at hdup
    rcases hdup with hdup | hdup | hdup
    · exact ⟨.stdin, has_of_mem_failing hdup, (hsome₁ hdup).symm⟩
    · exact ⟨.stdout, has_of_mem_failing hdup, hsome₂ hdup⟩
    · exact ⟨.stderr, has_of_mem_failing hdup, hsome₃ hdup⟩

theorem NewPipes.mono {flags : StandardStream} {ids : Stream → Nat} {first first' last : Nat}
    (h : NewPipes flags ids first last) (hle : first' ≤ first) :
    NewPipes flags ids first' last :=
  ⟨fun s => hle.trans (h.new s), h.made, h.distinct⟩

/-- Once the static pipe has been made, the locals start without descriptors and what is left
are the assignments. -/
theorem openStreams_eq_openThree (flags : StandardStream)
    (hok : .pipe ∉ failing (invalidCall k.invalidDone) k.faults) :
    ∃ k₃, openStreams flags k = openThree flags k₃ ∧ k₃.table = k.table ∧
      k₃.faults = k.faults.drop (invalidCall k.invalidDone).length ∧ k.nextPipe ≤ k₃.nextPipe := by
  obtain ⟨_, k₁, hrun₁, rfl, h₁, hfaults₁, hdone₁, hnext₁⟩ :=
    Pipe.invalid_returns (Adds.nil k.table) hok
  -- the later calls find the static set up
  have hfound : ∀ {k' : FdState}, k'.invalidDone = true →
      .pipe ∉ failing (invalidCall k'.invalidDone) k'.faults := by
    intro k' hdone
    rw [hdone]
    exact List.not_mem_nil
  obtain ⟨_, k₂, hrun₂, rfl, h₂, hfaults₂, hdone₂, hnext₂⟩ :=
    Pipe.invalid_returns h₁ (hfound hdone₁)
  obtain ⟨_, k₃, hrun₃, rfl, h₃, hfaults₃, -, hnext₃⟩ := Pipe.invalid_returns h₂ (hfound hdone₂)
  refine ⟨k₃, ?_, h₃.eq_base, ?_, hnext₁.trans (hnext₂.trans hnext₃)⟩
  · rw [openStreams, bind_eq hrun₁, bind_eq hrun₂, bind_eq hrun₃]
    rfl
  · rw [hfaults₃, hdone₂, hfaults₂, hdone₁, hfaults₁]
    rfl

/-- The locals of `fork`: either a `pipe` fails and nothing is left, or they are set up. -/
theorem openStreams_cases (flags : StandardStream) (k : FdState) :
    (.pipe ∈ failing (openCalls k.invalidDone flags) k.faults ∧
      Throws (openStreams flags) k fun _ k' => k'.table = k.table) ∨
    (.pipe ∉ failing (openCalls k.invalidDone flags) k.faults ∧
      Returns (openStreams flags) k fun ps k' => ∃ ids, SetUp flags k ps ids k' ∧
        k'.faults = k.faults.drop (openCalls k.invalidDone flags).length ∧
        (.dup ∉ failing (openCalls k.invalidDone flags) k.faults → OpenedStreams flags ps) ∧
        (.dup ∈ failing (openCalls k.invalidDone flags) k.faults →
          ∃ s, flags.has s = true ∧ (ps.parentFd s = none ∨ ps.childFd s = none))) := by
  rw [openCalls, failing_append]
  by_cases hinvalid : .pipe ∈ failing (invalidCall k.invalidDone) k.faults
  · exact .inl ⟨List.mem_append_left _ hinvalid, (Pipe.invalid_throws hinvalid).bind _⟩
  obtain ⟨k₃, heq, htable, hfaults, hnext⟩ := openStreams_eq_openThree flags hinvalid
  -- the static is made by a `pipe` alone
  have hdup : .dup ∉ failing (invalidCall k.invalidDone) k.faults := by
    intro hmem
    have hcall := mem_of_mem_failing hmem
    unfold invalidCall at hcall
    split at hcall
    · exact List.not_mem_nil hcall
    · exact SysCall.noConfusion (List.mem_singleton.mp hcall)
  rw [← hfaults]
  rcases openThree_cases flags k₃ with ⟨hfail, e, k', hrun, hend⟩ |
    ⟨hfail, ps, k', hrun, ids, hset, hafter, hall, hsome⟩
  · exact .inl ⟨List.mem_append_right _ hfail, e, k', heq.trans hrun, hend.trans htable⟩
  · refine .inr ⟨?_, ps, k', heq.trans hrun, ids, ⟨hset.new.mono hnext, ?_, hset.unwanted⟩,
      ?_, ?_, ?_⟩
    · rw [List.mem_append, not_or]
      exact ⟨hinvalid, hfail⟩
    · rw [← htable]
      exact hset.adds
    · rw [hafter.1, hfaults, List.drop_drop, List.length_append]
    · intro hno
      exact hall fun hmem => hno (List.mem_append_right _ hmem)
    · intro hmem
      rcases List.mem_append.mp hmem with hmem | hmem
      · exact absurd hmem hdup
      · exact hsome hmem

/-! ## The child's branch

Whatever fails, the child's table holds copies of what it started with. -/

/-- The code opens nothing new: what the table has afterwards it had somewhere before. -/
def OpensNothing {α : Type} (x : FdM α) : Prop :=
  ∀ k n d, (x k).2.table.get n = some d → ∃ m, k.table.get m = some d

namespace OpensNothing

theorem pure {α : Type} (a : α) : OpensNothing (Pure.pure a : FdM α) :=
  fun _ n _ hd => ⟨n, hd⟩

theorem bind {α β : Type} {x : FdM α} {f : α → FdM β} (hx : OpensNothing x)
    (hf : ∀ a, OpensNothing (f a)) : OpensNothing (x >>= f) := by
  intro k n d hd
  cases hrun : x k with
  | mk r k' =>
    cases r with
    | error e =>
      rw [bind_error hrun] at hd
      exact hx k n d (by rw [hrun]; exact hd)
    | ok a =>
      rw [bind_eq hrun] at hd
      obtain ⟨m, hm⟩ := hf a k' n d hd
      exact hx k m d (by rw [hrun]; exact hm)

theorem closeFd (fd : Option Nat) : OpensNothing (closeFd fd) :=
  fun _ n _ hd => ⟨n, get_of_closeOpt hd⟩

theorem sysDup2 (fd : Option Nat) (target : Nat) : OpensNothing (sysDup2 fd target) := by
  intro k n d hd
  unfold Core.sysDup2 at hd
  split at hd
  · exact ⟨n, hd⟩
  · split at hd
    · exact ⟨n, hd⟩
    · rename_i t hdup
      obtain ⟨m, -, hdup⟩ := Option.bind_eq_some_iff.mp hdup
      obtain ⟨e, he, rfl⟩ := Option.map_eq_some_iff.mp hdup
      rcases get_of_set hd with rfl | hd
      · exact ⟨m, he⟩
      · exact ⟨n, hd⟩

theorem redirectStream (want : Bool) (fd : Option Nat) (stream : Stream) :
    OpensNothing (redirectStream want fd stream) := by
  cases want with
  | false => exact pure ()
  | true => exact sysDup2 fd stream.fileno

theorem childSide (flags : StandardStream) (ps : Streams) : OpensNothing (childSide flags ps) := by
  have hclose : OpensNothing (closeParentEnds ps) := by
    refine bind ((closeFd _).bind fun _ => pure _) fun _ => ?_
    refine bind ((closeFd _).bind fun _ => pure _) fun _ => ?_
    exact bind ((closeFd _).bind fun _ => pure _) fun _ => pure _
  refine bind hclose fun ps' => bind ?_ fun _ => pure _
  refine bind (redirectStream _ _ _) fun _ => ?_
  exact bind (redirectStream _ _ _) fun _ => redirectStream _ _ _

end OpensNothing

/-! ## The parent's branch -/

/-- No call of a sequence fails. -/
theorem failing_eq_nil {cs : List SysCall} (h : failing cs k.faults = []) : k.Calm cs.length := by
  intro i hi
  induction cs generalizing i k with
  | nil => exact absurd hi (Nat.not_lt_zero i)
  | cons c cs ih =>
    rw [failing] at h
    split at h
    · cases h
    · rename_i hfault
      cases i with
      | zero => simpa using hfault
      | succ i =>
        rw [← List.drop_tail]
        exact ih (k := k.called) h i (Nat.lt_of_succ_lt_succ hi)

theorem objectCall_length (want : Bool) : (objectCall want).length = want.toNat := by
  cases want <;> rfl

theorem eq_dup_of_mem_objectCalls {flags : StandardStream} {c : SysCall}
    (h : c ∈ objectCalls flags) : c = .dup := by
  have hone : ∀ want : Bool, c ∈ objectCall want → c = .dup := by
    intro want hc
    cases want with
    | false => exact absurd hc List.not_mem_nil
    | true => exact List.mem_singleton.mp hc
  rw [objectCalls, List.mem_append, List.mem_append] at h
  rcases h with h | h | h <;> exact hone _ h

theorem calm_of_not_mem_failing {flags : StandardStream}
    (h : .dup ∉ failing (objectCalls flags) k.faults) : k.Calm flags.count := by
  have hnil : failing (objectCalls flags) k.faults = [] := by
    refine List.eq_nil_iff_forall_not_mem.mpr fun c hc => ?_
    obtain rfl := eq_dup_of_mem_objectCalls (mem_of_mem_failing hc)
    exact h hc
  have hcalm := failing_eq_nil hnil
  rwa [objectCalls, List.length_append, List.length_append, objectCall_length, objectCall_length,
    objectCall_length] at hcalm

/-- The streams for which the `dup` of the object fails. -/
theorem mem_failing_objectCalls (flags : StandardStream) (faults : List (Option Errno)) :
    .dup ∈ failing (objectCalls flags) faults ↔
      (flags.has .stdin = true ∧ faults.head?.join.isSome = true) ∨
      (flags.has .stdout = true ∧
        (faults.drop (flags.has .stdin).toNat).head?.join.isSome = true) ∨
      (flags.has .stderr = true ∧
        (faults.drop ((flags.has .stdin).toNat +
          (flags.has .stdout).toNat)).head?.join.isSome = true) := by
  have hone : ∀ (want : Bool) (faults : List (Option Errno)),
      .dup ∈ failing (objectCall want) faults ↔
        want = true ∧ faults.head?.join.isSome = true := by
    intro want faults
    cases want <;> simp [objectCall, failing]
  rw [objectCalls, failing_append, failing_append, List.mem_append, List.mem_append, hone, hone,
    hone, objectCall_length, objectCall_length, List.drop_drop]

/-- An object whose descriptors the parent's branch could not all duplicate lacks a stream. -/
theorem parentSide_incomplete {flags : StandardStream} {ids : Stream → Nat} {ps : Streams}
    (ho : OpenedStreams flags ps) (h : base.Adds k.table (ps.descrs ids))
    (hfail : .dup ∈ failing (objectCalls flags) k.faults) (self child : Nat) :
    Returns (parentSide self child ps) k fun object _ =>
      ∃ s, flags.has s = true ∧ object.streamFd s = none := by
  refine (parentSide_adds h self child).weaken ?_
  rintro object k' ⟨-, hsin, hsout, hserr, -, -, -⟩
  rw [ho.stdin.write_isSome] at hsin hsout hserr
  rw [ho.stdout.read_isSome] at hsout hserr
  rw [ho.stderr.read_isSome] at hserr
  have hlacks : ∀ {fd : Option Nat} {want : Bool} {fault : Option Errno},
      fd.isSome = (want && fault.isNone) → fault.isSome = true → fd = none := by
    intro fd want fault hfd hfault
    rw [Option.isNone_eq_false_iff.mpr hfault, Bool.and_false] at hfd
    simpa using hfd
  rcases (mem_failing_objectCalls flags k.faults).mp hfail with ⟨hs, hf⟩ | ⟨hs, hf⟩ | ⟨hs, hf⟩
  · exact ⟨.stdin, hs, hlacks hsin hf⟩
  · exact ⟨.stdout, hs, hlacks hsout hf⟩
  · exact ⟨.stderr, hs, hlacks hserr hf⟩

/-- A stream of the object needs the parent's end of the local. -/
theorem parentSide_streamFd {ids : Stream → Nat} {ps : Streams}
    (h : base.Adds k.table (ps.descrs ids)) (self child : Nat) :
    Returns (parentSide self child ps) k fun object k' =>
      ∀ s n, object.streamFd s = some n → (ps.parentFd s).isSome = true ∧
        k'.table.get n = some (.pipe (ids s) s.parentEnd) := by
  refine (parentSide_adds h self child).weaken ?_
  rintro object k' ⟨hadds, hsin, hsout, hserr, -, -, -⟩
  have hneeds : ∀ {fd end' : Option Nat} {ok : Bool} {n : Nat},
      fd.isSome = (end'.isSome && ok) → fd = some n → end'.isSome = true := by
    intro fd end' ok n hfd hn
    rw [hn, Option.isSome_some] at hfd
    exact (Bool.and_eq_true_iff.mp hfd.symm).1
  intro s n hn
  have hown : (n, Descr.pipe (ids s) s.parentEnd) ∈ writeEnd object.d.sin (ids .stdin) +
      (readEnd object.d.sout (ids .stdout) + readEnd object.d.serr (ids .stderr)) := by
    rw [Multiset.mem_add, Multiset.mem_add, mem_owned, mem_owned, mem_owned]
    cases s with
    | stdin => exact .inl ⟨hn, rfl⟩
    | stdout => exact .inr (.inl ⟨hn, rfl⟩)
    | stderr => exact .inr (.inr ⟨hn, rfl⟩)
  refine ⟨?_, hadds.get_own hown⟩
  cases s with
  | stdin => exact hneeds hsin hn
  | stdout => exact hneeds hsout hn
  | stderr => exact hneeds hserr hn

/-! ## The call -/

/-- `::fork` has made a child. -/
def ChildCreated (flags : StandardStream) (k : FdState) : Prop :=
  ∃ ps k₁ k₂, openStreams flags k = (.ok ps, k₁) ∧ sysFork k₁ = (.ok (), k₂)

/-- The object has an open descriptor for the stream, and the child has the other end of the
same pipe as that stream. -/
def Connected (object : ForkedChild) (parent child : FdTable Descr) (s : Stream) : Prop :=
  ∃ id n, object.streamFd s = some n ∧ parent.get n = some (.pipe id s.parentEnd) ∧
    child.get s.fileno = some (.pipe id s.childEnd)

/-- What the parent may expect of `fork`: an exception, with its table as it was and no child,
or an object all of whose streams are connected. -/
def AllOrNothing (flags : StandardStream) (k : FdState) :
    Except Errno (ForkedChild × (Except Errno Streams × FdState)) × FdState → Prop
  | (.error _, k') => k'.table = k.table ∧ ¬ ChildCreated flags k
  | (.ok (object, side), k') =>
    ∀ s, flags.has s = true → Connected object k'.table side.2.table s

section

variable {flags : StandardStream} {ps : Streams} {ids : Stream → Nat}

theorem fork_eq {object : ForkedChild} {k₁ k₂ k₃ : FdState} {self child : Nat}
    (hopen : openStreams flags k = (.ok ps, k₁)) (hfork : sysFork k₁ = (.ok (), k₂))
    (hparent : parentSide self child ps k₂ = (.ok object, k₃)) :
    fork self child flags [] k =
      (.ok (object, childSide flags ps { k₂ with faults := [] }), k₃) := by
  have hfork' : FdM.unwinding ps.dtor sysFork k₁ = (.ok (), k₂) := by
    simp only [FdM.unwinding, hfork]
  have hcurrent : FdM.current k₂ = (.ok k₂, k₂) := rfl
  rw [fork, bind_eq hopen, bind_eq hfork', bind_eq hcurrent, bind_eq hparent]
  rfl

/-- A `::fork` that fails leaves nothing of the pipes. -/
theorem sysFork_unwound {e : Errno} (h : base.Adds k.table (ps.descrs ids))
    (hfault : k.nextFault = some e) :
    Throws (FdM.unwinding ps.dtor sysFork) k fun _ k' => k'.table = base := by
  have hthrow : Throws sysFork k fun _ k' => k'.table = k.table := by
    refine ⟨e, k.called, ?_, rfl⟩
    simp only [sysFork, hfault]
  refine hthrow.unwinding fun _ k' htable => ?_
  rw [← htable, ← add_zero (ps.descrs ids), ps.descrs_add] at h
  exact (Streams.dtor_adds h).weaken fun _ k'' hend => hend.1.eq_base

theorem Stream.childEnd_ne_parentEnd (s : Stream) : s.childEnd ≠ s.parentEnd := by
  cases s <;> exact PipeEnd.noConfusion

/-- A local without the child's end: the child has no descriptor for that end. -/
theorem SetUp.childFd_isSome {k₁ : FdState} (hset : SetUp flags k ps ids k₁)
    (hpipes : ∀ n id side, k.table.get n = some (.pipe id side) → id < k.nextPipe) {s : Stream}
    (hs : flags.has s = true) {n : Nat} (hd : k₁.table.get n = some (.pipe (ids s) s.childEnd)) :
    ps.childFd s ≠ none := by
  have hwanted : ∀ s', ps.parentFd s' = some n ∨ ps.childFd s' = some n → flags.has s' = true := by
    intro s' hfd
    cases hhas : flags.has s' with
    | true => rfl
    | false =>
      obtain ⟨hparent, hchild⟩ := hset.unwanted s' hhas
      rw [hparent, hchild] at hfd
      rcases hfd with hfd | hfd <;> cases hfd
  rcases (hset.adds.get_iff _ _).mp hd with hbase | hown
  · exact absurd (hpipes _ _ _ hbase) (Nat.not_lt.mpr (hset.new.new s))
  · obtain ⟨s', hend⟩ := Streams.mem_descrs hown
    -- the numbers of the pipes tell the streams apart
    have hsame : ids s = ids s' := by
      rcases hend with ⟨-, hd⟩ | ⟨-, hd⟩ <;> exact (Descr.pipe.inj hd).1
    have hs' : flags.has s' = true := hwanted s' (hend.imp And.left And.left)
    obtain rfl := hset.new.distinct s s' hs hs' hsame
    rcases hend with ⟨-, hd⟩ | ⟨hfd, -⟩
    · exact absurd (Descr.pipe.inj hd).2 s.childEnd_ne_parentEnd
    · rw [hfd]
      exact Option.some_ne_none n

/-- A `pipe` has failed: nothing has happened. -/
theorem allOrNothing_of_openStreams_throws
    (h : Throws (openStreams flags) k fun _ k' => k'.table = k.table) (self child : Nat) :
    AllOrNothing flags k (fork self child flags [] k) := by
  obtain ⟨e, k₁, hopen, htable⟩ := h
  rw [fork, bind_error hopen]
  refine ⟨htable, ?_⟩
  rintro ⟨ps, k₁', k₂, hopen', -⟩
  cases hopen.symm.trans hopen'

/-- `::fork` has failed: the pipes are gone again. -/
theorem allOrNothing_of_fork_fails {k₁ : FdState} {e : Errno}
    (hopen : openStreams flags k = (.ok ps, k₁)) (hset : SetUp flags k ps ids k₁)
    (hfault : k₁.nextFault = some e) (self child : Nat) :
    AllOrNothing flags k (fork self child flags [] k) := by
  obtain ⟨e', k₂, hthrow, htable⟩ := sysFork_unwound hset.adds hfault
  rw [fork, bind_eq hopen, bind_error hthrow]
  refine ⟨htable, ?_⟩
  rintro ⟨ps', k₁', k₂', hopen', hfork⟩
  cases hopen.symm.trans hopen'
  simp only [sysFork, hfault] at hfork
  cases hfork

/-- Nothing fails after `::fork`, and the locals are complete: every stream is connected. -/
theorem allOrNothing_of_complete {k₁ : FdState} (hopen : openStreams flags k = (.ok ps, k₁))
    (hfork : sysFork k₁ = (.ok (), k₁.called)) (hset : SetUp flags k ps ids k₁)
    (ho : OpenedStreams flags ps) (hobject : .dup ∉ failing (objectCalls flags) k₁.called.faults)
    (self child : Nat) : AllOrNothing flags k (fork self child flags [] k) := by
  have hcalm := calm_of_not_mem_failing hobject
  have hadds : k.table.Adds k₁.called.table (ps.descrs ids) := hset.adds
  obtain ⟨object, k₃, hparent, hwired, -, -⟩ := parentSide_wired ho hadds hcalm self child
  obtain ⟨ps', kc, hchild, hredirected, -, -⟩ :=
    childSide_adds (k := { k₁.called with faults := [] }) ho hadds (FdState.calm_of_quiet rfl _)
  rw [fork_eq hopen hfork hparent, hchild]
  intro s hs
  obtain ⟨n, hn, hget⟩ := hwired.stream hs
  exact ⟨ids s, n, hn, hget, hredirected.redirected s hs⟩

/-- A stream whose local lacks one of its ends is not connected. -/
theorem not_allOrNothing_of_missing {k₁ : FdState}
    (hpipes : ∀ n id side, k.table.get n = some (.pipe id side) → id < k.nextPipe)
    (hopen : openStreams flags k = (.ok ps, k₁)) (hfork : sysFork k₁ = (.ok (), k₁.called))
    (hset : SetUp flags k ps ids k₁) {s : Stream} (hs : flags.has s = true)
    (hmissing : ps.parentFd s = none ∨ ps.childFd s = none) (self child : Nat) :
    ¬ AllOrNothing flags k (fork self child flags [] k) := by
  have hadds : k.table.Adds k₁.called.table (ps.descrs ids) := hset.adds
  obtain ⟨object, k₃, hparent, hstreams⟩ := parentSide_streamFd hadds self child
  rw [fork_eq hopen hfork hparent]
  intro hall
  obtain ⟨id, n, hn, hget, hchild⟩ := hall s hs
  obtain ⟨hsome, hget'⟩ := hstreams s n hn
  obtain ⟨rfl, -⟩ := Descr.pipe.inj (Option.some.inj (hget.symm.trans hget'))
  obtain ⟨m, hm⟩ := OpensNothing.childSide flags ps _ _ _ hchild
  rcases hmissing with hmissing | hmissing
  · rw [hmissing] at hsome
    cases hsome
  · exact hset.childFd_isSome hpipes hs hm hmissing

/-- Nor is one for which the object got no descriptor. -/
theorem not_allOrNothing_of_object {k₁ : FdState} (hopen : openStreams flags k = (.ok ps, k₁))
    (hfork : sysFork k₁ = (.ok (), k₁.called)) (hset : SetUp flags k ps ids k₁)
    (ho : OpenedStreams flags ps) (hobject : .dup ∈ failing (objectCalls flags) k₁.called.faults)
    (self child : Nat) : ¬ AllOrNothing flags k (fork self child flags [] k) := by
  have hadds : k.table.Adds k₁.called.table (ps.descrs ids) := hset.adds
  obtain ⟨object, k₃, hparent, s, hs, hnone⟩ := parentSide_incomplete ho hadds hobject self child
  rw [fork_eq hopen hfork hparent]
  intro hall
  obtain ⟨id, n, hn, -⟩ := hall s hs
  rw [hnone] at hn
  cases hn

end

/-- `fork` is all or nothing exactly if it throws, which it does if a `pipe` or the `::fork`
fails, or no `dup` fails: it does not look at the result of `dup`. -/
theorem fork_allOrNothing_iff (k : FdState)
    (hpipes : ∀ n id side, k.table.get n = some (.pipe id side) → id < k.nextPipe)
    (self child : Nat) (flags : StandardStream) :
    AllOrNothing flags k (fork self child flags [] k) ↔
      (∃ c ∈ failing (forkCalls k.invalidDone flags) k.faults, c ≠ .dup) ∨
        .dup ∉ failing (forkCalls k.invalidDone flags) k.faults := by
  rw [forkCalls, failing_append]
  rcases openStreams_cases flags k with ⟨hfail, hthrows⟩ |
    ⟨hok, ps, k₁, hopen, ids, hset, hfaults, hall, hsome⟩
  · exact iff_of_true (allOrNothing_of_openStreams_throws hthrows self child)
      (.inl ⟨.pipe, List.mem_append_left _ hfail, SysCall.noConfusion⟩)
  rw [← hfaults]
  cases hfault : k₁.nextFault with
  | some e =>
    have hhead : k₁.faults.head?.join.isSome = true := Option.isSome_iff_exists.mpr ⟨e, hfault⟩
    have hfail : .fork ∈ failing (.fork :: objectCalls flags) k₁.faults := by
      rw [failing, if_pos hhead]
      exact List.mem_cons_self
    exact iff_of_true (allOrNothing_of_fork_fails hopen hset hfault self child)
      (.inl ⟨.fork, List.mem_append_right _ hfail, SysCall.noConfusion⟩)
  | none =>
    have hfork : sysFork k₁ = (.ok (), k₁.called) := by simp only [sysFork, hfault]
    have hhead : ¬ k₁.faults.head?.join.isSome = true := by
      rw [show k₁.faults.head?.join = none from hfault]
      exact Bool.false_ne_true
    have hrest : failing (.fork :: objectCalls flags) k₁.faults =
        failing (objectCalls flags) k₁.called.faults := by
      rw [failing, if_neg hhead]
      rfl
    rw [hrest]
    -- only calls of `dup` are left to fail
    have honly : ¬ ∃ c ∈ failing (openCalls k.invalidDone flags) k.faults ++
        failing (objectCalls flags) k₁.called.faults, c ≠ .dup := by
      rintro ⟨c, hc, hne⟩
      rcases List.mem_append.mp hc with hc | hc
      · cases c with
        | pipe => exact hok hc
        | dup => exact hne rfl
        | fork => exact absurd (mem_of_mem_failing hc) fork_not_mem_openCalls
      · exact hne (eq_dup_of_mem_objectCalls (mem_of_mem_failing hc))
    rw [or_iff_right honly, List.mem_append, not_or]
    by_cases hdup : .dup ∈ failing (openCalls k.invalidDone flags) k.faults
    · obtain ⟨s, hs, hmissing⟩ := hsome hdup
      exact iff_of_false
        (not_allOrNothing_of_missing hpipes hopen hfork hset hs hmissing self child)
        fun h => h.1 hdup
    by_cases hobject : .dup ∈ failing (objectCalls flags) k₁.called.faults
    · exact iff_of_false
        (not_allOrNothing_of_object hopen hfork hset (hall hdup) hobject self child)
        fun h => h.2 hobject
    · exact iff_of_true (allOrNothing_of_complete hopen hfork hset (hall hdup) hobject self child)
        ⟨hdup, hobject⟩

/-- A process with its three standard descriptors, whose coming calls fail as given. -/
def stdioState (faults : List (Option Errno)) : FdState where
  table := ((FdTable.empty.set 0 (.other 0)).set 1 (.other 1)).set 2 (.other 2)
  invalidDone := false
  nextPipe := 0
  faults := faults

theorem stdioState_pipes {faults : List (Option Errno)} (n id : Nat) (side : PipeEnd)
    (h : (stdioState faults).table.get n = some (.pipe id side)) :
    id < (stdioState faults).nextPipe := by
  rcases get_of_set h with hother | h
  · cases hother
  rcases get_of_set h with hother | h
  · cases hother
  rcases get_of_set h with hother | h
  · cases hother
  · cases h

/-- Redirecting `stdin` where `::fork` fails with `EAGAIN`: nothing. -/
theorem fork_allOrNothing_iff_eagain :
    AllOrNothing ⟨1⟩ (stdioState [none, none, none, none, some .eagain])
      (fork 1 2 ⟨1⟩ [] (stdioState [none, none, none, none, some .eagain])) :=
  (fork_allOrNothing_iff _ stdioState_pipes 1 2 ⟨1⟩).mpr (.inl ⟨.fork, by decide, by decide⟩)

/-- Redirecting `stdin` under a limit of five descriptors: there is room for the temporary and
not for its copies, so both calls of `dup` fail, and `fork` returns an object whose `cin`
leads nowhere. -/
theorem fork_loses_stream :
    ¬ AllOrNothing ⟨1⟩ (stdioState [none, none, some .emfile, some .emfile])
      (fork 1 2 ⟨1⟩ [] (stdioState [none, none, some .emfile, some .emfile])) := by
  rcases openStreams_cases ⟨1⟩ (stdioState [none, none, some .emfile, some .emfile]) with
    ⟨hfail, -⟩ | ⟨-, ps, k₁, hopen, ids, hset, hfaults, -, hsome⟩
  · exact absurd hfail (by decide)
  · have hfork : sysFork k₁ = (.ok (), k₁.called) := by
      have hquiet : k₁.nextFault = none := by
        rw [FdState.nextFault, hfaults]
        rfl
      simp only [sysFork, hquiet]
    obtain ⟨s, hs, hmissing⟩ := hsome (by decide)
    exact not_allOrNothing_of_missing stdioState_pipes hopen hfork hset hs hmissing 1 2

end ProcessCpp.Core
