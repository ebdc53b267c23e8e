import Mathlib.Algebra.Group.Int.Defs
import Mathlib.Algebra.Group.Nat.Defs
import ProcessCpp.Core.SignalTrap

/-!
# The loop of `SignalTrap::run` (signal.cpp:132–176)

`run` polls a signalfd and an eventfd, reads up to five records from the first
and dispatches them in an inner `for` loop. The bound of that loop is written

    for (uint i = 0; i < result / sizeof(signalfd_siginfo); i++)

where `result` is a signed `ssize_t` and `sizeof` is an unsigned `size_t`: the
division is unsigned, 64 bits wide, and a failed read (`-1`) turns into a bound
of `2^57 - 1`, which no 32-bit index ever reaches.

- `loopBound`: the bound, with the conversions made explicit;
- `loopStep` / `loopAfter`: the inner loop, one iteration at a time, recording
  the indices it reads and the signals it emits;
- `runSystem`: the outer loop as a transition system whose labels are the answers
  of the kernel to `poll` and `read`. A record loop that does not end keeps the
  system inside `RunPc.dispatch`;
- `dispatches_ok_iff`: over any sequence of answers, every record loop ends, stays
  inside the records that were read and emits nothing for a failed read if and
  only if no read fails.
-/

namespace ProcessCpp.Core

open ProcessCpp.Base ProcessCpp.Posix

/-! ## The record loop -/

/-- `sizeof(signalfd_siginfo)`. -/
def sizeofSiginfo : Nat := 128

/-- `signal_info_buffer_size`. -/
def signalInfoBufferSize : Nat := 5

/-- What `read(2)` on the signalfd answers: complete records (their
`ssi_signo`), at least one and at most as many as fit, or an error. -/
inductive ReadAnswer where
  | records (signos : List Nat) (fits : 0 < signos.length ∧ signos.length ≤ signalInfoBufferSize)
  | failed (e : Errno)

namespace ReadAnswer

/-- The `ssize_t` that `read(2)` returns. -/
def result : ReadAnswer → Int
  | .records signos _ => sizeofSiginfo * signos.length
  | .failed _ => -1

/-- The number of records that were read. -/
def count : ReadAnswer → Nat
  | .records signos _ => signos.length
  | .failed _ => 0

/-- The buffer after the read; a failed read leaves it alone. -/
def fill (info : Nat → Nat) : ReadAnswer → Nat → Nat
  | .records signos _ => fun i => signos.getD i (info i)
  | .failed _ => info

/-- The read failed. -/
def Failed (a : ReadAnswer) : Prop := ∃ e, a = .failed e

end ReadAnswer

/-- `result / sizeof(signalfd_siginfo)`: the signed result is converted to a
64-bit unsigned integer before the division. -/
def loopBound (result : Int) : Nat := (result % 2 ^ 64).toNat / sizeofSiginfo

/-- One execution of the record loop: the answer of the read before it, and
`signal_info[i].ssi_signo` for every index, the memory behind the buffer
included. -/
structure Dispatch where
  answer : ReadAnswer
  info : Nat → Nat

/-- The loop's index, the indices it has read, and what it has emitted. -/
structure LoopState where
  i : Nat
  accessed : List Nat
  emitted : List Signal

/-- The state before the first iteration. -/
def LoopState.start : LoopState := ⟨0, [], []⟩

/-- The emission of one iteration. -/
def iterEmits (trap : SignalTrap) (d : Dispatch) (i : Nat) : List Signal :=
  if trap.has ⟨d.info i⟩ then [⟨d.info i⟩] else []

/-- One iteration of the loop, or `none` when its condition fails. The index is
a 32-bit `uint`. -/
def loopStep (trap : SignalTrap) (d : Dispatch) (s : LoopState) : Option LoopState :=
  if s.i < loopBound d.answer.result then
    some ⟨(s.i + 1) % 2 ^ 32, s.accessed ++ [s.i], s.emitted ++ iterEmits trap d s.i⟩
  else
    none

/-- The state after `n` iterations, if the loop makes that many. -/
def loopAfter (trap : SignalTrap) (d : Dispatch) : Nat → Option LoopState
  | 0 => some .start
  | n + 1 => (loopAfter trap d n).bind (loopStep trap d)

/-- What is asked of one execution of the record loop: it ends, reads only
records that were read, which lie inside the buffer, and emits nothing after a
failed read. -/
structure DispatchOk (trap : SignalTrap) (d : Dispatch) : Prop where
  terminates : ∃ n s, loopAfter trap d n = some s ∧ loopStep trap d s = none
  inBounds : ∀ n s, loopAfter trap d n = some s →
    ∀ j ∈ s.accessed, j < d.answer.count ∧ j < signalInfoBufferSize
  silent : d.answer.Failed → ∀ n s, loopAfter trap d n = some s → s.emitted = []

theorem loopBound_records {signos : List Nat}
    (fits : 0 < signos.length ∧ signos.length ≤ signalInfoBufferSize) :
    loopBound (ReadAnswer.records signos fits).result = signos.length := by
  obtain ⟨-, hle⟩ := fits
  simp only [loopBound, ReadAnswer.result, sizeofSiginfo, signalInfoBufferSize] at hle ⊢
  omega

theorem loopBound_failed (e : Errno) : loopBound (ReadAnswer.failed e).result = 2 ^ 57 - 1 := by
  simp only [loopBound, ReadAnswer.result, sizeofSiginfo]
  omega

theorem loopStep_eq_some {trap : SignalTrap} {d : Dispatch} {s s' : LoopState} :
    loopStep trap d s = some s' ↔
      s.i < loopBound d.answer.result ∧
        s' = ⟨(s.i + 1) % 2 ^ 32, s.accessed ++ [s.i], s.emitted ++ iterEmits trap d s.i⟩ := by
  unfold loopStep
  by_cases h : s.i < loopBound d.answer.result
  · rw [if_pos h, Option.some.injEq]
    constructor
    · intro hs
      exact ⟨h, hs.symm⟩
    · intro hs
      exact hs.2.symm
  · rw [if_neg h]
    constructor
    · intro hs
      cases hs
    · intro hs
      exact absurd hs.1 h

theorem loopStep_eq_none {trap : SignalTrap} {d : Dispatch} {s : LoopState} :
    loopStep trap d s = none ↔ loopBound d.answer.result ≤ s.i := by
  unfold loopStep
  split
  · simp only [reduceCtorEq, false_iff]
    omega
  · simp only [true_iff]
    omega

/-- Whatever the loop reads is below its bound, and its index fits 32 bits. -/
theorem loopAfter_accessed {trap : SignalTrap} {d : Dispatch} {n : Nat} {s : LoopState}
    (h : loopAfter trap d n = some s) :
    s.i < 2 ^ 32 ∧ ∀ j ∈ s.accessed, j < loopBound d.answer.result := by
  induction n generalizing s with
  | zero =>
    cases h
    exact ⟨by decide, fun j hj => absurd hj List.not_mem_nil⟩
  | succ n ih =>
    obtain ⟨t, ht, hs⟩ := Option.bind_eq_some_iff.mp h
    obtain ⟨hlt, rfl⟩ := loopStep_eq_some.mp hs
    refine ⟨Nat.mod_lt _ (by decide), fun j hj => ?_⟩
    rcases List.mem_append.mp hj with hj | hj
    · exact (ih ht).2 j hj
    · rw [List.mem_singleton.mp hj]
      exact hlt

/-- A loop whose bound fits the index makes as many iterations as the bound. -/
theorem loopAfter_bound (trap : SignalTrap) {d : Dispatch} {n : Nat}
    (hn : n ≤ loopBound d.answer.result) (hfit : n < 2 ^ 32) :
    ∃ s, loopAfter trap d n = some s ∧ s.i = n := by
  induction n with
  | zero => exact ⟨.start, rfl, rfl⟩
  | succ n ih =>
    obtain ⟨s, hs, hi⟩ := ih (by omega) (by omega)
    have hlt : s.i < loopBound d.answer.result := by omega
    refine ⟨⟨(s.i + 1) % 2 ^ 32, s.accessed ++ [s.i], s.emitted ++ iterEmits trap d s.i⟩, ?_, ?_⟩
    · rw [loopAfter, hs]
      exact loopStep_eq_some.mpr ⟨hlt, rfl⟩
    · show (s.i + 1) % 2 ^ 32 = n + 1
      rw [hi, Nat.mod_eq_of_lt hfit]

/-- **The record loop is right exactly when the read succeeded.** -/
theorem dispatchOk_iff (trap : SignalTrap) (d : Dispatch) :
    DispatchOk trap d ↔ ¬ d.answer.Failed := by
  obtain ⟨answer, info⟩ := d
  cases answer with
  | records signos fits =>
    have hbound := loopBound_records fits
    have hle := fits.2
    simp only [signalInfoBufferSize] at hle
    -- the bound is the number of records, which the index reaches
    refine ⟨fun _ ⟨e, he⟩ => (nomatch he), fun _ => ⟨?_, fun n s hs j hj => ?_, ?_⟩⟩
    · obtain ⟨s, hs, hi⟩ := loopAfter_bound trap
        (d := ⟨.records signos fits, info⟩) (n := signos.length) (by rw [hbound]) (by omega)
      exact ⟨_, s, hs, loopStep_eq_none.mpr (by rw [hbound, hi])⟩
    · have hj' := (loopAfter_accessed hs).2 j hj
      rw [hbound] at hj'
      exact ⟨hj', lt_of_lt_of_le hj' fits.2⟩
    · rintro ⟨e, he⟩
      cases he
  | failed e =>
    -- the index never leaves the 32-bit range, the bound lies far outside it
    refine ⟨fun h => ?_, fun h => absurd ⟨e, rfl⟩ h⟩
    obtain ⟨n, s, hs, hnone⟩ := h.terminates
    have hi := (loopAfter_accessed hs).1
    have hge := loopStep_eq_none.mp hnone
    rw [loopBound_failed] at hge
    omega

/-! ## The outer loop -/

/-- What `poll(2)` answers: an error, a timeout, or which of the two descriptors
are readable. -/
inductive PollAnswer where
  | error (e : Errno)
  | timeout
  | ready (signal event : Bool)

/-- Where `run` stands between two system calls. -/
inductive RunPc where
  /-- At the top of `for (;;)`. -/
  | poll
  /-- The signalfd is readable; `event` tells whether the eventfd is. -/
  | read (event : Bool)
  /-- Inside the record loop. -/
  | dispatch (d : Dispatch) (l : LoopState) (event : Bool)
  /-- Before the test of the eventfd's `revents`. -/
  | checkEvent (event : Bool)
  /-- After the loop. -/
  | left

/-- The state of a session: where it stands, the buffer `signal_info`, what it
has emitted, and every record loop it has started. -/
structure RunState where
  pc : RunPc
  info : Nat → Nat
  raised : List Signal
  dispatches : List Dispatch

/-- Labels: an answer of the kernel, or a step of the code alone. -/
inductive RunLabel where
  | poll (a : PollAnswer)
  | read (a : ReadAnswer)
  | tau

/-- The steps of the loop of `run`. -/
inductive RunStep (trap : SignalTrap) : RunState → RunLabel → RunState → Prop where
  | interrupted {s} (hpc : s.pc = .poll) : RunStep trap s (.poll (.error .eintr)) s
  | pollFailed {s e} (hpc : s.pc = .poll) (he : e ≠ Errno.eintr) :
      RunStep trap s (.poll (.error e)) { s with pc := .left }
  | timeout {s} (hpc : s.pc = .poll) : RunStep trap s (.poll .timeout) s
  | signalReady {s event} (hpc : s.pc = .poll) :
      RunStep trap s (.poll (.ready true event)) { s with pc := .read event }
  | signalIdle {s event} (hpc : s.pc = .poll) :
      RunStep trap s (.poll (.ready false event)) { s with pc := .checkEvent event }
  | read {s event a} (hpc : s.pc = .read event) :
      RunStep trap s (.read a)
        { s with
          pc := .dispatch ⟨a, a.fill s.info⟩ .start event
          info := a.fill s.info
          dispatches := s.dispatches ++ [⟨a, a.fill s.info⟩] }
  | iterate {s d l l' event} (hpc : s.pc = .dispatch d l event)
      (hl : loopStep trap d l = some l') :
      RunStep trap s .tau
        { s with
          pc := .dispatch d l' event
          raised := s.raised ++ iterEmits trap d l.i }
  | loopDone {s d l event} (hpc : s.pc = .dispatch d l event) (hl : loopStep trap d l = none) :
      RunStep trap s .tau { s with pc := .checkEvent event }
  | stopped {s} (hpc : s.pc = .checkEvent true) : RunStep trap s .tau { s with pc := .left }
  | again {s} (hpc : s.pc = .checkEvent false) : RunStep trap s .tau { s with pc := .poll }

/-- A session of a trap as a transition system. -/
def runSystem (trap : SignalTrap) : LTS RunState RunLabel where
  step := RunStep trap

/-- Entering the loop, with whatever the buffer holds. -/
def RunState.start (info : Nat → Nat) : RunState := ⟨.poll, info, [], []⟩

/-- The system inside `dispatch` is the record loop: its index and what it read
and emitted are those of the loop after some number of iterations. -/
def FollowsLoop (trap : SignalTrap) (s : RunState) : Prop :=
  ∀ d l event, s.pc = .dispatch d l event → d ∈ s.dispatches ∧ ∃ n, loopAfter trap d n = some l

theorem followsLoop_step {trap : SignalTrap} {s s' : RunState} {lab : RunLabel}
    (h : RunStep trap s lab s') (hs : FollowsLoop trap s) : FollowsLoop trap s' := by
  intro d l event hpc
  cases h with
  | interrupted h => exact hs d l event hpc
  | pollFailed h he => cases hpc
  | timeout h => exact hs d l event hpc
  | signalReady h => cases hpc
  | signalIdle h => cases hpc
  | read h =>
    cases hpc
    exact ⟨List.mem_append_right _ (List.mem_singleton_self _), 0, rfl⟩
  | iterate h hl =>
    cases hpc
    obtain ⟨hmem, n, hn⟩ := hs _ _ _ h
    refine ⟨hmem, n + 1, ?_⟩
    rw [loopAfter, hn]
    exact hl
  | loopDone h hl => cases hpc
  | stopped h => cases hpc
  | again h => cases hpc

/-- In every reachable state inside `dispatch`, the record loop stands where
`loopAfter` says. -/
theorem followsLoop_run {trap : SignalTrap} {info : Nat → Nat} {s : RunState}
    {ls : List RunLabel} (h : (runSystem trap).Run (.start info) ls s) : FollowsLoop trap s := by
  refine h.invariant (P := FollowsLoop trap) (fun _ _ _ hstep hs => followsLoop_step hstep hs) ?_
  intro d l event hpc
  cases hpc

/-- What `run` emitted between two of its states. -/
def newlyRaised (t t' : RunState) : List Signal := t'.raised.drop t.raised.length

/-- While `run` looks at records, its buffer holds them. -/
def RunState.RecordsRead (t : RunState) : Prop :=
  ∀ signos fits info l event, t.pc = .dispatch ⟨.records signos fits, info⟩ l event →
    ∀ j signo, signos[j]? = some signo → info j = signo

theorem RunState.RecordsRead.step {trap : SignalTrap} {t t' : RunState} {l : RunLabel}
    (h : t.RecordsRead) (hstep : RunStep trap t l t') : t'.RecordsRead := by
  intro signos fits info ls event hpc j signo hj
  cases hstep with
  | interrupted | timeout => exact h _ _ _ _ _ hpc j signo hj
  | read =>
    cases hpc
    show signos.getD j (t.info j) = signo
    rw [List.getD_eq_getElem?_getD, hj, Option.getD_some]
  | iterate hold hl =>
    cases hpc
    exact h _ _ _ _ _ hold j signo hj
  | pollFailed | signalReady | signalIdle | loopDone | stopped | again => cases hpc

/-- The record loops a session starts are those of its reads, in order. -/
theorem dispatches_step {trap : SignalTrap} {s s' : RunState} {lab : RunLabel}
    (h : RunStep trap s lab s') :
    (∃ a info, lab = .read a ∧ s'.dispatches = s.dispatches ++ [⟨a, info⟩]) ∨
      ((∀ a, lab ≠ .read a) ∧ s'.dispatches = s.dispatches) := by
  cases h with
  | read h => exact .inl ⟨_, _, rfl, rfl⟩
  | _ => exact .inr ⟨by simp, rfl⟩

theorem dispatches_run {trap : SignalTrap} {s s' : RunState} {ls : List RunLabel}
    (h : (runSystem trap).Run s ls s') (a : ReadAnswer) :
    (∃ d ∈ s'.dispatches, d.answer = a) ↔
      (∃ d ∈ s.dispatches, d.answer = a) ∨ RunLabel.read a ∈ ls := by
  induction h with
  | nil => simp
  | cons hstep _ ih =>
    rw [ih, List.mem_cons]
    rcases dispatches_step hstep with ⟨b, info, rfl, hd⟩ | ⟨hlab, hd⟩
    · have hnew : (∃ d ∈ [(⟨b, info⟩ : Dispatch)], d.answer = a) ↔ RunLabel.read a = .read b := by
        simp [eq_comm]
      rw [hd, ← or_assoc]
      simp only [List.mem_append, or_and_right, exists_or, hnew]
    · rw [hd]
      have hne := (hlab a).symm
      simp [hne]

/-- **Every dispatch of a session is safe exactly when no read fails**: over
every sequence of answers to `poll` and `read`, all record loops the session
starts end, read only records that were read and emit nothing for a failed read,
if and only if none of its reads fails. -/
theorem dispatches_ok_iff (trap : SignalTrap) (info : Nat → Nat) (ls : List RunLabel)
    (s : RunState) (h : (runSystem trap).Run (.start info) ls s) :
    (∀ d ∈ s.dispatches, DispatchOk trap d) ↔ ∀ e, RunLabel.read (.failed e) ∉ ls := by
  have hlog := dispatches_run h
  constructor
  · intro hok e hmem
    obtain ⟨d, hd, ha⟩ := (hlog (.failed e)).mpr (.inr hmem)
    exact (dispatchOk_iff trap d).mp (hok d hd) ⟨e, ha⟩
  · intro hread d hd
    rw [dispatchOk_iff]
    rintro ⟨e, ha⟩
    rcases (hlog (.failed e)).mp ⟨d, hd, ha⟩ with ⟨d', hd', -⟩ | hmem
    · exact absurd hd' List.not_mem_nil
    · exact hread e hmem

/-- A trap for `SIGCHLD`. -/
def chldTrap : SignalTrap := ⟨.thread, 3, Mask.none, SignalTrap.collect [Signal.sigChld]⟩

/-- One record for `SIGCHLD` fits into the buffer. -/
theorem chldRecord_fits : 0 < [17].length ∧ [17].length ≤ signalInfoBufferSize := by decide

/-- A session whose first poll finds the signalfd readable and whose read gets
the answer `a`. -/
def firstRead (a : ReadAnswer) : List RunLabel := [.poll (.ready true false), .read a]

theorem firstRead_run (trap : SignalTrap) (info : Nat → Nat) (a : ReadAnswer) :
    (runSystem trap).Run (.start info) (firstRead a)
      ⟨.dispatch ⟨a, a.fill info⟩ .start false, a.fill info, [], [⟨a, a.fill info⟩]⟩ :=
  .cons (.signalReady rfl) (.cons (.read rfl) (.nil _))

theorem dispatches_ok_iff_one_record :
    (∀ d ∈ [(⟨.records [17] (by decide), (ReadAnswer.records [17] (by decide)).fill fun _ => 0⟩ :
        Dispatch)], DispatchOk chldTrap d) ↔
      ∀ e, RunLabel.read (.failed e) ∉ firstRead (.records [17] (by decide)) :=
  dispatches_ok_iff chldTrap (fun _ => 0) _ _
    (firstRead_run chldTrap (fun _ => 0) (.records [17] (by decide)))

/-- When another consumer takes the signal between `poll` and `read`, the read
fails with `EAGAIN` and the record loop runs forever over the stale buffer and
the memory behind it. -/
theorem stolen_signal_not_ok :
    (runSystem chldTrap).Run (.start fun _ => 0) (firstRead (.failed .eagain))
        ⟨.dispatch ⟨.failed .eagain, fun _ => 0⟩ .start false, fun _ => 0, [],
          [⟨.failed .eagain, fun _ => 0⟩]⟩ ∧
      ¬ DispatchOk chldTrap ⟨.failed .eagain, fun _ => 0⟩ :=
  ⟨firstRead_run chldTrap (fun _ => 0) (.failed .eagain),
    fun hok => (dispatchOk_iff chldTrap _).mp hok ⟨.eagain, rfl⟩⟩

end ProcessCpp.Core
