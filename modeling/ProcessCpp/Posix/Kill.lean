import ProcessCpp.Posix.Basic

/-!
# The process table: `kill` and `getpgid`

A process table lists the processes the kernel knows when a call is made, with the
caller among them.

`kill(2)` addresses processes by a number: `n > 0` is the process `n`, `0` the
caller's own group, `-1` every process the caller may signal, and `n < -1` the
group `-n` (`ProcTable.addressed`). A call that finds nobody fails with `ESRCH`, a
number that is no signal is refused with `EINVAL`, and any call may be refused for a
reason of the kernel's own (`EPERM`), which the argument `refusal` stands for. A call
that is not refused reaches all the processes it addresses; the null signal goes
through the same checks and is delivered to nobody.
-/

namespace ProcessCpp.Posix

/-- A process as its caller sees it. -/
structure Proc where
  pid : Int
  pgid : Int
  /-- the caller may send it signals -/
  signalable : Bool
deriving DecidableEq, Repr

/-- The processes there are when a call is made. Group ids are not negative; group
`0` is the kernel's own. -/
structure ProcTable where
  procs : List Proc
  caller : Proc
  caller_mem : caller ∈ procs
  pid_pos : ∀ p ∈ procs, 0 < p.pid
  pid_inj : ∀ p ∈ procs, ∀ q ∈ procs, p.pid = q.pid → p = q
  pgid_nonneg : ∀ p ∈ procs, 0 ≤ p.pgid

namespace ProcTable

/-- The process is among those that `kill` with this number addresses. With `-1` these are all
that the caller may signal, itself and init included; Linux leaves these two out. -/
def addressed (t : ProcTable) (n : Int) (p : Proc) : Bool :=
  if 0 < n then p.pid == n
  else if n = 0 then p.pgid == t.caller.pgid
  else if n = -1 then p.signalable
  else p.pgid == -n

theorem addressed_process (t : ProcTable) {n : Int} (hn : 0 < n) (p : Proc) :
    t.addressed n p = true ↔ p.pid = n := by
  rw [addressed, if_pos hn, beq_iff_eq]

theorem addressed_ownGroup (t : ProcTable) (p : Proc) :
    t.addressed 0 p = true ↔ p.pgid = t.caller.pgid := by
  rw [addressed, if_neg (by omega), if_pos rfl, beq_iff_eq]

theorem addressed_everybody (t : ProcTable) (p : Proc) : t.addressed (-1) p = p.signalable := rfl

theorem addressed_group (t : ProcTable) {id : Int} (hid : 1 < id) (p : Proc) :
    t.addressed (-id) p = true ↔ p.pgid = id := by
  rw [addressed, if_neg (by omega), if_neg (by omega), if_neg (by omega), beq_iff_eq, Int.neg_neg]

/-- `kill(2)`, with the processes the signal is delivered to. A call for a group is refused or
reaches all its members; the kernel passes over those that the caller may not signal. -/
def kill (t : ProcTable) (n sig : Int) (refusal : Option Errno) : Except Errno (List Proc) :=
  match refusal with
  | some errno => .error errno
  | none =>
    if sig < 0 ∨ 64 < sig then .error .einval
    else if t.procs.filter (t.addressed n) = [] then .error .esrch
    else .ok (if sig = 0 then [] else t.procs.filter (t.addressed n))

/-- `getpgid(2)`. -/
def getpgid (t : ProcTable) (pid : Int) (refusal : Option Errno) : Except Errno Int :=
  match refusal with
  | some errno => .error errno
  | none =>
    if pid = 0 then .ok t.caller.pgid
    else
      match t.procs.find? (·.pid == pid) with
      | none => .error .esrch
      | some p => .ok p.pgid

/-- A group that was found has an id that is not negative. -/
theorem getpgid_nonneg {t : ProcTable} {pid id : Int} {refusal : Option Errno}
    (h : t.getpgid pid refusal = .ok id) : 0 ≤ id := by
  cases refusal with
  | some errno => cases h
  | none =>
    unfold getpgid at h
    by_cases hpid : pid = 0
    · rw [if_pos hpid] at h
      cases h
      exact t.pgid_nonneg _ t.caller_mem
    · rw [if_neg hpid] at h
      cases hfind : t.procs.find? (·.pid == pid) with
      | none =>
        rw [hfind] at h
        cases h
      | some p =>
        rw [hfind] at h
        cases h
        exact t.pgid_nonneg p (List.mem_of_find?_eq_some hfind)

/-- What a `kill` with a signal number does: it fails if it is refused or addresses
nobody, and otherwise reaches those it addresses. -/
theorem kill_cases (t : ProcTable) (n : Int) (sig : SigNum) (refusal : Option Errno) :
    ((refusal ≠ none ∨ ∀ p ∈ t.procs, t.addressed n p = false) ∧
      ∃ errno, t.kill n sig.val refusal = .error errno) ∨
    (refusal = none ∧ (∃ p ∈ t.procs, t.addressed n p = true) ∧
      t.kill n sig.val refusal = .ok (t.procs.filter (t.addressed n))) := by
  cases refusal with
  | some errno => exact .inl ⟨.inl nofun, errno, rfl⟩
  | none =>
    have hrange : ¬ ((sig.val : Int) < 0 ∨ 64 < (sig.val : Int)) := by
      have hsig := sig.property
      omega
    have hnull : (sig.val : Int) ≠ 0 := by
      have hsig := sig.property
      omega
    by_cases hnobody : t.procs.filter (t.addressed n) = []
    · refine .inl ⟨.inr fun p hp => ?_, .esrch, ?_⟩
      · simpa using List.filter_eq_nil_iff.mp hnobody p hp
      · simp only [kill, if_neg hrange, if_pos hnobody]
    · refine .inr ⟨rfl, ?_, ?_⟩
      · obtain ⟨p, hp⟩ := List.exists_mem_of_ne_nil _ hnobody
        exact ⟨p, (List.mem_filter.mp hp).1, (List.mem_filter.mp hp).2⟩
      · simp only [kill, if_neg hrange, if_neg hnobody, if_neg hnull]

end ProcTable

end ProcessCpp.Posix
