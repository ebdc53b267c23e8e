import ProcessCpp.Base.Prelude
import ProcessCpp.Base.Transition
import ProcessCpp.Core.Signalable

/-!
# `this_process::instance` (this_process.cpp:150–154)

    static const Process self{getpid()};
    return self;

"Returns a Process instance corresponding to this process." The pid is asked for once, by
the first call, and kept in a function-local static. `fork` copies statics like all memory,
so a process that was forked after its parent had called `instance` is handed the parent.
`parent()`, right below in the source, asks the system at every call.

- `ThisProcess.Family`: a tree of processes that fork, call `instance` and end, with what
  each call returned.
- `instance_returns_caller_iff`: the calls of a run all return their caller exactly when
  each is made by a process on whose line of descent nobody else had called `instance`
  first.
-/

namespace ProcessCpp.Core

open ProcessCpp.Base ProcessCpp.Posix

namespace ThisProcess

/-- The memory of one process, as far as `instance` goes. -/
structure Memory where
  /-- the function-local static; `none` before its initialisation -/
  self : Option Process
  /-- history: the pids that called `instance` on this memory or on what it was copied from -/
  callers : List Nat

/-- `this_process::instance`, where `getpid()` returns `pid`. -/
def inst (pid : Nat) (mem : Memory) : Except Exception (Process × Memory) :=
  match mem.self with
  | some self => .ok (self, mem)
  | none => do
    let self ← Process.ctor pid
    return (self, { mem with self := some self })

/-- The living processes under their pids, and what was returned to whom. -/
structure Family where
  procs : Nat → Option Memory
  /-- history: the pid of every caller, with the result -/
  returned : List (Nat × Process)

/-- One process, which has not called `instance` yet. -/
def Family.start (root : Nat) : Family :=
  ⟨Function.update (fun _ => none) root (some ⟨none, []⟩), []⟩

inductive Label where
  | call (pid : Nat)
  | fork (pid child : Nat)
  | exit (pid : Nat)
deriving DecidableEq, Repr

/-- A call of `instance`, a fork that gives the child a pid not in use, or an end, after
which the pid may be given to another process. -/
inductive Step (s : Family) : Label → Family → Prop where
  | call {pid mem self mem'} (hpid : s.procs pid = some mem)
      (hinst : inst pid mem = .ok (self, mem')) :
      Step s (.call pid)
        ⟨Function.update s.procs pid (some { mem' with callers := mem'.callers ++ [pid] }),
          s.returned ++ [(pid, self)]⟩
  | fork {pid child mem} (hpid : s.procs pid = some mem) (hfree : s.procs child = none) :
      Step s (.fork pid child) { s with procs := Function.update s.procs child (some mem) }
  | exit {pid mem} (hpid : s.procs pid = some mem) :
      Step s (.exit pid) { s with procs := Function.update s.procs pid none }

def system : LTS Family Label where
  step := Step

/-- Every call has returned its caller. -/
def Family.Right (s : Family) : Prop := ∀ x ∈ s.returned, x.2.pid = x.1

/-- The first to call `instance` on the caller's line of descent was nobody but the caller:
its ancestors with other pids had not called it before they forked. -/
def FirstIsOwn (s : Family) : Label → Prop
  | .call pid => ∀ mem, s.procs pid = some mem → ∀ q, mem.callers.head? = some q → q = pid
  | .fork _ _ | .exit _ => True

/-! ## The static is the first caller -/

/-- The static belongs to whoever called first. -/
def Memory.Ok (mem : Memory) : Prop :=
  mem.self.map (·.pid) = mem.callers.head?.map Int.ofNat

/-- `instance` returns: to the first caller itself, to all others whoever was first. -/
theorem inst_eq (pid : Nat) {mem : Memory} (h : mem.Ok) :
    ∃ self mem', inst pid mem = .ok (self, mem') ∧
      self.pid = ((mem.callers.head?.getD pid : Nat) : Int) ∧
      Memory.Ok { mem' with callers := mem'.callers ++ [pid] } := by
  unfold Memory.Ok at h ⊢
  cases hself : mem.self with
  | none =>
    have hcallers : mem.callers = [] := by
      rw [hself] at h
      simpa using h.symm
    have hpid : ¬ (pid : Int) < 0 := by omega
    refine ⟨⟨⟨pid⟩, pid⟩, { mem with self := some ⟨⟨pid⟩, pid⟩ }, ?_, ?_, ?_⟩
    · simp only [inst, hself, Process.ctor, if_neg hpid]
      rfl
    · simp [hcallers]
    · simp [hcallers]
  | some self =>
    rw [hself] at h
    cases hcallers : mem.callers with
    | nil => simp [hcallers] at h
    | cons q rest =>
      have hq : self.pid = q := by simpa [hcallers] using h
      refine ⟨self, mem, ?_, ?_, ?_⟩
      · simp [inst, hself]
      · simpa [hcallers] using hq
      · simpa [hself, hcallers] using hq

def Family.Ok (s : Family) : Prop := ∀ pid mem, s.procs pid = some mem → mem.Ok

variable {s s' : Family} {l : Label}

theorem Step.ok (h : Step s l s') (hs : s.Ok) : s'.Ok := by
  cases h with
  | call hpid hinst =>
    obtain ⟨self, mem', hinst', -, hok⟩ := inst_eq _ (hs _ _ hpid)
    cases hinst.symm.trans hinst'
    refine forall_update (fun q mem _ hq => hs q mem hq) ?_
    rintro _ ⟨⟩
    exact hok
  | fork hpid hfree =>
    refine forall_update (fun q mem _ hq => hs q mem hq) ?_
    rintro _ ⟨⟩
    exact hs _ _ hpid
  | exit hpid =>
    refine forall_update (fun q mem _ hq => hs q mem hq) ?_
    rintro _ ⟨⟩

/-- A step keeps the results right exactly when it is not a call with somebody else's
static. -/
theorem Step.right_iff (h : Step s l s') (hs : s.Ok) : s'.Right ↔ s.Right ∧ FirstIsOwn s l := by
  cases h with
  | @call pid mem self mem' hpid hinst =>
    obtain ⟨self', mem'', hinst', hself, -⟩ := inst_eq pid (hs _ _ hpid)
    cases hinst.symm.trans hinst'
    have hfirst : FirstIsOwn s (.call pid) ↔ self.pid = pid := by
      simp only [FirstIsOwn]
      rw [hself, hpid]
      cases hhead : mem.callers.head? with
      | none => simp [hhead]
      | some q =>
        constructor
        · intro hown
          exact congrArg Int.ofNat (hown mem rfl q hhead)
        · rintro hq _ ⟨⟩ q' hq'
          cases hhead.symm.trans hq'
          exact Int.ofNat_inj.mp hq
    rw [hfirst]
    simp [Family.Right, or_imp, forall_and]
  | fork | exit => simp [Family.Right, FirstIsOwn]

theorem Family.ok_start (root : Nat) : (Family.start root).Ok := by
  refine forall_update ?_ ?_
  · rintro _ _ _ ⟨⟩
  · rintro _ ⟨⟩
    rfl

/-- In every tree of processes: all calls return their caller if and only if all are made
while nobody else was first. -/
theorem instance_returns_caller_iff (root : Nat) (ls : List Label) (s : Family)
    (h : system.Run (.start root) ls s) :
    s.Right ↔ (system.restrict FirstIsOwn).Run (.start root) ls s :=
  h.good_iff_restrict (Q := Family.Ok)
    (fun _ _ _ hstep hx => Step.ok hstep hx) (fun _ _ _ hstep hx => Step.right_iff hstep hx)
    (Family.ok_start root) (by simp [Family.Right, Family.start])

/-- The parent forks before either process asks. -/
def forkThenCall : List Label := [.fork 10 11, .call 11, .call 10]

theorem instance_returns_caller_iff_forkThenCall :
    ∃ s, system.Run (.start 10) forkThenCall s ∧ s.returned.length = 2 ∧
      (s.Right ↔ (system.restrict FirstIsOwn).Run (.start 10) forkThenCall s) := by
  have hrun : system.Run (.start 10) forkThenCall _ :=
    .cons (.fork rfl rfl) (.cons (.call rfl rfl) (.cons (.call rfl rfl) (.nil _)))
  exact ⟨_, hrun, rfl, instance_returns_caller_iff 10 forkThenCall _ hrun⟩

/-- The parent asks, forks, and the child is told that it is its parent. -/
theorem child_is_returned_parent :
    ∃ s, system.Run (.start 10) [.call 10, .fork 10 11, .call 11] s ∧
      (∃ self, (11, self) ∈ s.returned ∧ self.pid = 10) ∧ ¬ s.Right := by
  refine ⟨_, .cons (.call rfl rfl) (.cons (.fork rfl rfl) (.cons (.call rfl rfl) (.nil _))),
    ⟨⟨⟨10⟩, 10⟩, ?_, rfl⟩, ?_⟩
  · exact List.mem_cons_of_mem _ (List.mem_singleton.mpr rfl)
  · intro hright
    have hpid : (10 : Int) = 11 :=
      hright (11, ⟨⟨10⟩, 10⟩) (List.mem_cons_of_mem _ (List.mem_singleton.mpr rfl))
    exact absurd hpid (by decide)

end ThisProcess

end ProcessCpp.Core
