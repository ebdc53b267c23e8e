import ProcessCpp.Core.AutoKill
import ProcessCpp.Core.ForkAndRun

/-!
# Functions that fork and wait (fork_and_run.cpp:41–77, fork_and_run.h:71–110)

`fork_and_run` and the test cases that `TESTP` and `TESTP_F` define are of one kind: a scope
that forks children into local variables, waits for them, and may be left by an exception at
every call. On the way out the locals are destroyed, the last one first, and each destructor
kills its child.

The scope is not alone in its process. A `DeathObserver` reaps whatever child it finds ("We are
thus changing state and potentially race with other wait operations on children",
child_process.h), and other threads fork and wait: when they are first, the `wait_for` of the
scope throws, or waits for whoever has got the pid.

- `ScopeCall`, `ScopeStep`, `scopeSystem`: such a scope, one call at a time, among the deaths,
  stops and forks of everybody else and the waits of the others in the process;
- `forkAndRunCalls`, `testCalls`: the scopes of the source;
- `ScopeState.Ok`: what holds of every run, with an account of who has reaped whom;
- `scope_leaves_nobody`: when the scope has been left, normally or not, every child that it
  forked was sent `SIGKILL` exactly once, and this went to the child itself unless somebody had
  reaped it by then (`LeavesNobody`).
-/

namespace ProcessCpp.Core

open ProcessCpp.Base ProcessCpp.Posix

/-! ## Scopes -/

/-- A call in the body of a scope. The locals are numbered in the order of their
declarations. -/
inductive ScopeCall where
  | fork
  | waitFor (x : Nat) (flags : Wait.Flags)
  | sendSignalOrThrow (x : Nat) (signal : Signal)
deriving DecidableEq

/-- The answer of `waitpid` as `wait_for` sees it. -/
def waitForAnswer : WaitAnswer → Except Errno Wait.Result
  | .nothing => waitFor (.ok (0, 0))
  | .changed pid c => waitFor (.ok (pid, c.word))
  | .failed e => waitFor (.error e)

/-- What a `wait_for` on the local `x` has returned, and whom its `waitpid` reaped. -/
structure ScopeReport where
  x : Nat
  result : Wait.Result
  reaped : List Nat

/-- A kill by a destructor, with the children that had been reaped by then. -/
structure ScopeKill where
  kill : Kill
  reaped : List Nat

structure ScopeState where
  kernel : Kernel
  /-- the calls still to be made; `none` once the scope is being left -/
  todo : Option (List ScopeCall)
  locals : List ChildProcess
  /-- history: all values the scope has had -/
  made : List ChildProcess
  reports : List ScopeReport
  /-- history: the children that others in the process have reaped -/
  taken : List Nat
  /-- the exception that leaves the scope -/
  thrown : Option Errno
  kills : List ScopeKill

inductive ScopeLabel where
  | kernel (l : KernelLabel)
  | forked (pid : Nat)
  | waited (a : WaitAnswer)
  | othersWaited (a : WaitAnswer)
  | signalSent
  | failed (e : Errno)
  | leave
  | destroy

/-- One call of the scope, in the process `self`, or a step of somebody else. The others in the
process may wait for any child: a `DeathObserver` inside `add` or `on_sig_child`, or another
thread inside `wait_for`. -/
inductive ScopeStep (self : Nat) (s : ScopeState) : ScopeLabel → ScopeState → Prop where
  | kernel {l k'} (h : KernelStep s.kernel l k') :
      ScopeStep self s (.kernel l) { s with kernel := k' }
  | forked {pid calls k'} (htodo : s.todo = some (.fork :: calls))
      (h : KernelStep s.kernel (.fork pid) k') :
      ScopeStep self s (.forked pid)
        { s with
          kernel := k'
          todo := some calls
          locals := s.locals ++ [.forked pid s.kernel.forks.length]
          made := s.made ++ [.forked pid s.kernel.forks.length] }
  | forkFailed {calls e} (htodo : s.todo = some (.fork :: calls)) :
      ScopeStep self s (.failed e) { s with todo := none, thrown := some e }
  | waited {x flags calls c a k' r} (htodo : s.todo = some (.waitFor x flags :: calls))
      (hx : s.locals[x]? = some c) (hw : Waitpid s.kernel (.process c.pid) flags.options a k')
      (hr : waitForAnswer a = .ok r) :
      ScopeStep self s (.waited a)
        { s with
          kernel := k'
          todo := some calls
          reports := s.reports ++ [⟨x, r, a.takes s.kernel⟩] }
  | waitFailed {x flags calls c a k' e} (htodo : s.todo = some (.waitFor x flags :: calls))
      (hx : s.locals[x]? = some c) (hw : Waitpid s.kernel (.process c.pid) flags.options a k')
      (he : waitForAnswer a = .error e) :
      ScopeStep self s (.failed e) { s with kernel := k', todo := none, thrown := some e }
  | othersWaited {target opts a k'} (hw : Waitpid s.kernel target opts a k') :
      ScopeStep self s (.othersWaited a)
        { s with kernel := k', taken := s.taken ++ a.takes s.kernel }
  | signalSent {x signal calls} (htodo : s.todo = some (.sendSignalOrThrow x signal :: calls)) :
      ScopeStep self s .signalSent { s with todo := some calls }
  | signalFailed {x signal calls e}
      (htodo : s.todo = some (.sendSignalOrThrow x signal :: calls)) :
      ScopeStep self s (.failed e) { s with todo := none, thrown := some e }
  | leave (htodo : s.todo = some []) : ScopeStep self s .leave { s with todo := none }
  | destroy {init c} (htodo : s.todo = none) (hlast : s.locals = init ++ [c]) :
      ScopeStep self s .destroy
        { s with
          locals := init
          kills := s.kills ++ (killsOf self s.kernel c).map (⟨·, s.kernel.reaped⟩) }

def scopeSystem (self : Nat) : LTS ScopeState ScopeLabel where
  step := ScopeStep self

namespace ScopeState

/-- Before the first call. -/
def start (k : Kernel) (calls : List ScopeCall) : ScopeState where
  kernel := k
  todo := some calls
  locals := []
  made := []
  reports := []
  taken := []
  thrown := none
  kills := []

/-- The scope has been left, and its locals are gone. -/
def Ended (s : ScopeState) : Prop := s.todo = none ∧ s.locals = []

/-- Nobody else has reaped a child of the scope. -/
def Undisturbed (s : ScopeState) : Prop :=
  ∀ pid serial, .forked pid serial ∈ s.made → serial ∉ s.taken

end ScopeState

/-- `fork_and_run`: the service is the first local, the client the second. -/
def forkAndRunCalls : List ScopeCall :=
  [.fork, .fork, .waitFor 1 .untraced, .sendSignalOrThrow 0 ⟨15⟩, .waitFor 0 .untraced]

/-- The body of a test case that `TESTP` or `TESTP_F` defines. -/
def testCalls : List ScopeCall := [.fork, .waitFor 0 .untraced]

/-! ## What holds of every scope -/

/-- The local that a call waits for. -/
def ScopeCall.waits : ScopeCall → Option Nat
  | .waitFor x _ => some x
  | .fork | .sendSignalOrThrow _ _ => none

/-- `wait_for` says that the child has ended. -/
def Wait.Result.Ended (r : Wait.Result) : Prop := r.status = .exited ∨ r.status = .signaled

namespace ScopeState

structure Ok (k₀ : Kernel) (s : ScopeState) : Prop where
  wf : s.kernel.WF
  later : k₀.forks.length ≤ s.kernel.forks.length
  split : s.made = s.locals ++ (s.kills.map (·.kill.value)).reverse
  early : s.todo ≠ none → s.kills = []
  /-- every local is waited for at most once -/
  waits : ∀ calls, s.todo = some calls → (calls.filterMap ScopeCall.waits).Nodup ∧
    ∀ report ∈ s.reports, report.x ∉ calls.filterMap ScopeCall.waits
  forked : ∀ (x : Nat) c, s.made[x]? = some c → ∃ pid serial, c = .forked pid serial ∧
    s.kernel.forks[serial]? = some pid ∧ k₀.forks.length ≤ serial
  distinct : ∀ (x y : Nat) pid pid' serial, s.made[x]? = some (.forked pid serial) →
    s.made[y]? = some (.forked pid' serial) → x = y
  /-- whoever has been reaped was reaped by somebody -/
  reaped : ∀ serial, serial ∈ s.kernel.reaped ↔ serial ∈ k₀.reaped ∨
    (∃ report ∈ s.reports, serial ∈ report.reaped) ∨ serial ∈ s.taken
  ended : ∀ report ∈ s.reports, report.result.Ended ↔ report.reaped ≠ []
  /-- with nobody else about, a `wait_for` reaps no child but that of its local -/
  own : s.Undisturbed → ∀ report ∈ s.reports, ∀ serial ∈ report.reaped,
    ∃ pid, s.made[report.x]? = some (.forked pid serial)
  /-- and after a kill nobody reaps but the others -/
  kills : ∀ killed ∈ s.kills, (∀ serial ∈ killed.reaped, serial ∈ s.kernel.reaped) ∧
    ∀ serial ∈ s.kernel.reaped, serial ∈ killed.reaped ∨ serial ∈ s.taken
  aimed : ∀ killed ∈ s.kills, ∀ pid serial, killed.kill.value = .forked pid serial →
    (killed.kill.Good ↔ serial ∉ killed.reaped)

theorem Ok.start {k : Kernel} (hwf : k.WF) {calls : List ScopeCall}
    (hcalls : (calls.filterMap ScopeCall.waits).Nodup) : (start k calls).Ok k where
  wf := hwf
  later := Nat.le_refl _
  split := rfl
  early _ := rfl
  waits calls' h := by
    cases h
    exact ⟨hcalls, fun _ h => absurd h List.not_mem_nil⟩
  forked x c h := by cases h
  distinct x y pid pid' serial h := by cases h
  reaped serial := by simp [ScopeState.start]
  ended _ h := absurd h List.not_mem_nil
  own _ _ h := absurd h List.not_mem_nil
  kills _ h := absurd h List.not_mem_nil
  aimed _ h := absurd h List.not_mem_nil

variable {self : Nat} {k₀ : Kernel} {s s' : ScopeState} {l : ScopeLabel}

/-- The locals of a scope that is not being left are all values it has had. -/
theorem Ok.locals_eq (h : s.Ok k₀) (htodo : s.todo ≠ none) : s.locals = s.made := by
  have hsplit := h.split
  rw [h.early htodo] at hsplit
  exact (hsplit.trans (List.append_nil _)).symm

/-- A child of the scope had not been reaped when the scope was entered. -/
theorem Ok.notMem_reaped (h : s.Ok k₀) (hk : k₀.WF) {x pid serial : Nat}
    (hx : s.made[x]? = some (.forked pid serial)) : serial ∉ k₀.reaped := by
  obtain ⟨_, _, ⟨⟩, -, hle⟩ := h.forked x _ hx
  exact fun hr => absurd (hk.reaped_lt serial hr) (Nat.not_lt.mpr hle)

/-- Somebody else's step. -/
theorem Ok.kernelStep (h : s.Ok k₀) {kl : KernelLabel} {k' : Kernel}
    (hk : KernelStep s.kernel kl k') : Ok k₀ { s with kernel := k' } where
  wf := h.wf.step hk
  later := h.later.trans hk.forks_length_le
  split := h.split
  early := h.early
  waits := h.waits
  forked x c hx := by
    obtain ⟨pid, serial, rfl, hfork, hle⟩ := h.forked x c hx
    exact ⟨pid, serial, rfl, hk.forksKept serial pid hfork, hle⟩
  distinct := h.distinct
  reaped serial := by
    show serial ∈ k'.reaped ↔ _
    rw [hk.reaped]
    exact h.reaped serial
  ended := h.ended
  own := h.own
  kills killed hkilled := by
    show (∀ serial ∈ killed.reaped, serial ∈ k'.reaped) ∧
      ∀ serial ∈ k'.reaped, serial ∈ killed.reaped ∨ serial ∈ s.taken
    rw [hk.reaped]
    exact h.kills killed hkilled
  aimed := h.aimed

/-- A value at a place after one more was made. -/
theorem made_cases {made : List ChildProcess} {new c : ChildProcess} {x : Nat}
    (h : (made ++ [new])[x]? = some c) : made[x]? = some c ∨ (x = made.length ∧ c = new) := by
  rcases Nat.lt_trichotomy x made.length with hlt | heq | hgt
  · exact .inl ((List.getElem?_append_left hlt).symm.trans h)
  · subst heq
    rw [List.getElem?_concat_length] at h
    exact .inr ⟨rfl, (Option.some.inj h).symm⟩
  · have hlen := (List.getElem?_eq_some_iff.mp h).1
    rw [List.length_append, List.length_singleton] at hlen
    omega

theorem Ok.forkStep (h : s.Ok k₀) {calls : List ScopeCall} {pid : Nat} {k' : Kernel}
    (htodo : s.todo = some (.fork :: calls)) (hk : KernelStep s.kernel (.fork pid) k') :
    Ok k₀ { s with
      kernel := k'
      todo := some calls
      locals := s.locals ++ [.forked pid s.kernel.forks.length]
      made := s.made ++ [.forked pid s.kernel.forks.length] } := by
  have hnone : s.todo ≠ none := by
    rw [htodo]
    exact nofun
  have hkills := h.early hnone
  have hlocals := h.locals_eq hnone
  -- the new serial number is nobody else's
  have hold : ∀ {x : Nat} {pid' serial}, s.made[x]? = some (.forked pid' serial) →
      serial ≠ s.kernel.forks.length := by
    intro x pid' serial hx
    obtain ⟨_, _, ⟨⟩, hfork, -⟩ := h.forked x _ hx
    exact Nat.ne_of_lt (List.getElem?_eq_some_iff.mp hfork).1
  refine ⟨h.wf.step hk, h.later.trans hk.forks_length_le, ?_, fun _ => hkills, ?_, ?_, ?_, ?_,
    h.ended, ?_, ?_, h.aimed⟩
  · show s.made ++ _ = (s.locals ++ _) ++ _
    rw [hkills, hlocals]
    exact (List.append_nil _).symm
  · rintro _ ⟨⟩
    have hwaits := h.waits (.fork :: calls) htodo
    exact hwaits
  · intro x c hx
    rcases made_cases hx with hx | ⟨-, rfl⟩
    · obtain ⟨pid', serial, rfl, hfork, hle⟩ := h.forked x c hx
      exact ⟨pid', serial, rfl, hk.forksKept serial pid' hfork, hle⟩
    · cases hk with
      | fork => exact ⟨pid, _, rfl, List.getElem?_concat_length, h.later⟩
  · intro x y pid₁ pid₂ serial hx hy
    rcases made_cases hx with hx | ⟨hxlen, hxc⟩ <;> rcases made_cases hy with hy | ⟨hylen, hyc⟩
    · exact h.distinct x y pid₁ pid₂ serial hx hy
    · cases hyc
      exact absurd rfl (hold hx)
    · cases hxc
      exact absurd rfl (hold hy)
    · rw [hxlen, hylen]
  · intro serial
    show serial ∈ k'.reaped ↔ _
    rw [hk.reaped]
    exact h.reaped serial
  · intro hundisturbed report hreport serial hserial
    have hbefore : s.Undisturbed := fun pid serial hmem =>
      hundisturbed pid serial (List.mem_append_left _ hmem)
    obtain ⟨pid', hx⟩ := h.own hbefore report hreport serial hserial
    exact ⟨pid', (List.getElem?_append_left (List.getElem?_eq_some_iff.mp hx).1).trans hx⟩
  · intro killed hkilled
    rw [hkills] at hkilled
    exact absurd hkilled List.not_mem_nil

theorem ended_ofStateChange_iff (c : StateChange) :
    (Wait.ofStateChange c).Ended ↔ ∃ t, c = .terminated t := by
  cases c with
  | terminated t =>
    refine iff_of_true ?_ ⟨t, rfl⟩
    cases t with
    | exited code => exact .inl rfl
    | signaled sig core => exact .inr rfl
  | stopped sig =>
    refine iff_of_false ?_ nofun
    rintro (h | h) <;> cases h
  | continued =>
    refine iff_of_false ?_ nofun
    rintro (h | h) <;> cases h

/-- A `wait_for` says that its child has ended exactly when its `waitpid` has reaped one. -/
theorem ended_iff_takes {k k' : Kernel} {pid : Nat} {opts : WaitOptions} {a : WaitAnswer}
    {r : Wait.Result} (hpid : 1 < pid) (hw : Waitpid k (.process pid) opts a k')
    (hr : waitForAnswer a = .ok r) : r.Ended ↔ a.takes k ≠ [] := by
  have hpos : (pid : Int) ≠ 0 := by omega
  cases hw with
  | @reap q c t hq hsel hz =>
    obtain rfl : q = pid := hsel
    rw [waitForAnswer, waitFor_stateChange hpos] at hr
    cases hr
    rw [ended_ofStateChange_iff, WaitAnswer.takes_terminated hq]
    exact iff_of_true ⟨t, rfl⟩ (List.cons_ne_nil _ _)
  | stopped hopt hq hsel | continued hopt hq hsel =>
    obtain rfl : _ = pid := hsel
    rw [waitForAnswer, waitFor_stateChange hpos] at hr
    cases hr
    rw [ended_ofStateChange_iff]
    refine iff_of_false ?_ fun hne => hne rfl
    rintro ⟨t, ht⟩
    cases ht
  | nothing =>
    cases hr
    refine iff_of_false ?_ fun hne => hne rfl
    rintro (h | h) <;> cases h
  | noChild | failed => cases hr

/-- Whom a `waitpid` for an unreaped child reaps is that child. -/
theorem eq_of_mem_takes {k k' : Kernel} (hwf : k.WF) {pid serial : Nat} {opts : WaitOptions}
    {a : WaitAnswer} (hfork : k.forks[serial]? = some pid) (hnot : serial ∉ k.reaped)
    (hw : Waitpid k (.process pid) opts a k') {serial' : Nat} (hmem : serial' ∈ a.takes k) :
    serial' = serial := by
  obtain ⟨child, hslot, rfl⟩ := hwf.slot_of_not_reaped hfork hnot
  cases hw with
  | @reap q c t hq hsel hz =>
    obtain rfl : q = pid := hsel
    rw [WaitAnswer.takes_terminated hslot] at hmem
    exact List.mem_singleton.mp hmem
  | _ => exact absurd hmem List.not_mem_nil

/-- Somebody has been reaped, by a `wait_for` of the scope. -/
theorem reported_append_iff {reports : List ScopeReport} {x : Nat} {r : Wait.Result}
    {reaped : List Nat} {serial : Nat} :
    (∃ report ∈ reports ++ [⟨x, r, reaped⟩], serial ∈ report.reaped) ↔
      (∃ report ∈ reports, serial ∈ report.reaped) ∨ serial ∈ reaped := by
  simp only [List.mem_append, List.mem_singleton, or_and_right, exists_or, exists_eq_left]

theorem Ok.waitStep (h : s.Ok k₀) (hk : k₀.WF) {x : Nat} {flags : Wait.Flags}
    {calls : List ScopeCall} {c : ChildProcess} {a : WaitAnswer} {k' : Kernel} {r : Wait.Result}
    (htodo : s.todo = some (.waitFor x flags :: calls)) (hx : s.locals[x]? = some c)
    (hw : Waitpid s.kernel (.process c.pid) flags.options a k') (hr : waitForAnswer a = .ok r) :
    Ok k₀ { s with
      kernel := k'
      todo := some calls
      reports := s.reports ++ [⟨x, r, a.takes s.kernel⟩] } := by
  have hnone : s.todo ≠ none := by
    rw [htodo]
    exact nofun
  obtain ⟨hnodup, hunreported⟩ := h.waits _ htodo
  obtain ⟨hnotin, hnodup⟩ := List.nodup_cons.mp hnodup
  rw [h.locals_eq hnone] at hx
  obtain ⟨pid, serial, rfl, hfork, -⟩ := h.forked x c hx
  have hpid : 1 < pid := h.wf.pid_pos pid (List.mem_of_getElem? hfork)
  refine ⟨h.wf.waitpid hw, ?_, h.split, fun _ => h.early hnone, ?_, ?_, h.distinct, ?_, ?_, ?_, ?_,
    h.aimed⟩
  · show _ ≤ k'.forks.length
    rw [hw.forks_eq]
    exact h.later
  · -- the local just waited for does not come again
    rintro _ ⟨⟩
    refine ⟨hnodup, fun report hreport => ?_⟩
    rcases List.mem_append.mp hreport with hreport | hreport
    · exact fun hmem => hunreported report hreport (List.mem_cons_of_mem _ hmem)
    · rw [List.mem_singleton.mp hreport]
      exact hnotin
  · intro y d hy
    obtain ⟨pid', serial', rfl, hfork', hle⟩ := h.forked y d hy
    exact ⟨pid', serial', rfl, hw.forksKept serial' pid' hfork', hle⟩
  · intro serial'
    show serial' ∈ k'.reaped ↔ serial' ∈ k₀.reaped ∨
      (∃ report ∈ s.reports ++ [⟨x, r, a.takes s.kernel⟩], serial' ∈ report.reaped) ∨
        serial' ∈ s.taken
    rw [hw.reaped_eq, List.mem_append, h.reaped serial', reported_append_iff]
    grind
  · intro report hreport
    rcases List.mem_append.mp hreport with hreport | hreport
    · exact h.ended report hreport
    · rw [List.mem_singleton.mp hreport]
      exact ended_iff_takes hpid hw hr
  · intro hundisturbed report hreport serial' hserial
    rcases List.mem_append.mp hreport with hreport | hreport
    · exact h.own hundisturbed report hreport serial' hserial
    · obtain rfl := List.mem_singleton.mp hreport
      -- the child waited for has not been reaped: not before, by no earlier call, by nobody else
      have hnot : serial ∉ s.kernel.reaped := by
        rw [h.reaped serial]
        rintro (hbefore | ⟨report, hreport, hmem⟩ | htaken)
        · exact h.notMem_reaped hk hx hbefore
        · obtain ⟨pid', hx'⟩ := h.own hundisturbed report hreport serial hmem
          have hsame := h.distinct _ _ _ _ _ hx' hx
          exact hunreported report hreport (hsame ▸ List.mem_cons_self)
        · exact hundisturbed pid serial (List.mem_of_getElem? hx) htaken
      obtain rfl : serial' = serial := eq_of_mem_takes h.wf hfork hnot hw hserial
      exact ⟨pid, hx⟩
  · intro killed hkilled
    have hnil : s.kills = [] := h.early hnone
    have hmem : killed ∈ s.kills := hkilled
    rw [hnil] at hmem
    exact absurd hmem List.not_mem_nil

/-- Somebody else's `waitpid`. -/
theorem Ok.othersStep (h : s.Ok k₀) {target : WaitTarget} {opts : WaitOptions} {a : WaitAnswer}
    {k' : Kernel} (hw : Waitpid s.kernel target opts a k') :
    Ok k₀ { s with kernel := k', taken := s.taken ++ a.takes s.kernel } where
  wf := h.wf.waitpid hw
  later := by
    show _ ≤ k'.forks.length
    rw [hw.forks_eq]
    exact h.later
  split := h.split
  early := h.early
  waits := h.waits
  forked x c hx := by
    obtain ⟨pid, serial, rfl, hfork, hle⟩ := h.forked x c hx
    exact ⟨pid, serial, rfl, hw.forksKept serial pid hfork, hle⟩
  distinct := h.distinct
  reaped serial := by
    show serial ∈ k'.reaped ↔ serial ∈ k₀.reaped ∨
      (∃ report ∈ s.reports, serial ∈ report.reaped) ∨ serial ∈ s.taken ++ a.takes s.kernel
    rw [hw.reaped_eq, List.mem_append, List.mem_append, h.reaped serial]
    grind
  ended := h.ended
  own hundisturbed := h.own fun pid serial hmem htaken =>
    hundisturbed pid serial hmem (List.mem_append_left _ htaken)
  kills killed hkilled := by
    obtain ⟨hsub, hsince⟩ := h.kills killed hkilled
    refine ⟨fun serial hserial => hw.reaped (hsub serial hserial), fun serial hserial => ?_⟩
    have hcases : serial ∈ a.takes s.kernel ++ s.kernel.reaped := hw.reaped_eq ▸ hserial
    rcases List.mem_append.mp hcases with hnew | hold
    · exact .inr (List.mem_append_right _ hnew)
    · exact (hsince serial hold).imp_right (List.mem_append_left _)
  aimed := h.aimed

/-- The scope is being left. -/
theorem Ok.leaveStep (h : s.Ok k₀) (e : Option Errno) :
    Ok k₀ { s with todo := none, thrown := e } where
  wf := h.wf
  later := h.later
  split := h.split
  early := nofun
  waits := nofun
  forked := h.forked
  distinct := h.distinct
  reaped := h.reaped
  ended := h.ended
  own := h.own
  kills := h.kills
  aimed := h.aimed

theorem Ok.destroyStep (h : s.Ok k₀) {init : List ChildProcess} {c : ChildProcess}
    (htodo : s.todo = none) (hlast : s.locals = init ++ [c]) :
    Ok k₀ { s with
      locals := init
      kills := s.kills ++ (killsOf self s.kernel c).map (⟨·, s.kernel.reaped⟩) } := by
  rw [killsOf_eq]
  refine ⟨h.wf, h.later, ?_, fun hsome => absurd htodo hsome, ?_, h.forked, h.distinct, h.reaped,
    h.ended, h.own, ?_, ?_⟩
  · show s.made =
      init ++ ((s.kills ++ [_]).map fun killed : ScopeKill => killed.kill.value).reverse
    rw [List.map_append, List.reverse_append, h.split, hlast, List.append_assoc]
    rfl
  · intro calls hsome
    cases htodo.symm.trans hsome
  · intro killed hkilled
    rcases List.mem_append.mp hkilled with hkilled | hkilled
    · exact h.kills killed hkilled
    · rw [List.mem_singleton.mp hkilled]
      exact ⟨fun _ hr => hr, fun _ hr => .inl hr⟩
  · -- the kill goes where the kernel table of this moment sends it
    intro killed hkilled pid serial hvalue
    rcases List.mem_append.mp hkilled with hkilled | hkilled
    · exact h.aimed killed hkilled pid serial hvalue
    · rw [List.mem_singleton.mp hkilled] at hvalue ⊢
      obtain rfl : c = .forked pid serial := hvalue
      have hmem : .forked pid serial ∈ s.made := by
        rw [h.split, hlast]
        simp
      obtain ⟨x, hx⟩ := List.mem_iff_getElem?.mp hmem
      obtain ⟨_, _, ⟨⟩, hfork, -⟩ := h.forked x _ hx
      exact good_iff_unreaped h.wf hfork

/-- A `wait_for` that fails has reaped nobody. -/
theorem waitpid_failed {k k' : Kernel} {target : WaitTarget} {opts : WaitOptions} {a : WaitAnswer}
    {e : Errno} (hw : Waitpid k target opts a k') (he : waitForAnswer a = .error e) : k' = k := by
  rcases hw.cases_kernel with rfl | ⟨pid, c, t, -, -, -, rfl, -⟩
  · rfl
  · by_cases hzero : (pid : Int) = 0
    · rw [waitForAnswer, waitFor, if_pos hzero] at he
      cases he
    · rw [waitForAnswer, waitFor_stateChange hzero] at he
      cases he

theorem Ok.step (h : s.Ok k₀) (hk : k₀.WF) (hstep : ScopeStep self s l s') : s'.Ok k₀ := by
  cases hstep with
  | kernel hk => exact h.kernelStep hk
  | forked htodo hk => exact h.forkStep htodo hk
  | forkFailed | signalFailed => exact h.leaveStep _
  | waited htodo hx hw hr => exact h.waitStep hk htodo hx hw hr
  | waitFailed htodo hx hw he =>
    rw [waitpid_failed hw he]
    exact h.leaveStep _
  | othersWaited hw => exact h.othersStep hw
  | signalSent htodo =>
    have hsome : s.todo ≠ none := by
      rw [htodo]
      exact nofun
    refine ⟨h.wf, h.later, h.split, fun _ => h.early hsome, ?_, h.forked, h.distinct, h.reaped,
      h.ended, h.own, h.kills, h.aimed⟩
    rintro _ ⟨⟩
    have hwaits := h.waits _ htodo
    exact hwaits
  | leave => exact h.leaveStep s.thrown
  | destroy htodo hlast => exact h.destroyStep htodo hlast

/-- The calls are made in their order, and each `wait_for` that returns is on record. -/
structure Follows (calls : List ScopeCall) (s : ScopeState) : Prop where
  thrown : s.todo ≠ none → s.thrown = none
  order : s.thrown = none → ∃ done, calls = done ++ s.todo.getD [] ∧
    s.reports.map ScopeReport.x = done.filterMap ScopeCall.waits

theorem Follows.start (k : Kernel) (calls : List ScopeCall) : Follows calls (start k calls) :=
  ⟨fun _ => rfl, fun _ => ⟨[], rfl, rfl⟩⟩

/-- One call more has been made. -/
theorem Follows.next {calls rest : List ScopeCall} {call : ScopeCall} (h : Follows calls s)
    (htodo : s.todo = some (call :: rest)) (htodo' : s'.todo = some rest)
    (hthrown : s'.thrown = s.thrown)
    (hreports : s'.reports.map ScopeReport.x = s.reports.map ScopeReport.x ++ call.waits.toList) :
    Follows calls s' := by
  have hsome : s.todo ≠ none := by
    rw [htodo]
    exact nofun
  have hnone := h.thrown hsome
  obtain ⟨done, hcalls, hdone⟩ := h.order hnone
  refine ⟨fun _ => hthrown.trans hnone, fun _ => ⟨done ++ [call], ?_, ?_⟩⟩
  · rw [hcalls, htodo, htodo', List.append_assoc]
    rfl
  · rw [hreports, hdone, List.filterMap_append]
    cases hw : call.waits <;> simp [hw]

theorem Follows.step {calls : List ScopeCall} (h : Follows calls s)
    (hstep : ScopeStep self s l s') : Follows calls s' := by
  cases hstep with
  | kernel | othersWaited => exact ⟨h.thrown, h.order⟩
  | forked htodo => exact h.next htodo rfl rfl (List.append_nil _).symm
  | forkFailed | waitFailed | signalFailed => exact ⟨nofun, nofun⟩
  | waited htodo => exact h.next htodo rfl rfl List.map_append
  | signalSent htodo => exact h.next htodo rfl rfl (List.append_nil _).symm
  | leave htodo =>
    refine ⟨nofun, fun hthrown => ?_⟩
    obtain ⟨done, hcalls, hdone⟩ := h.order hthrown
    rw [htodo] at hcalls
    exact ⟨done, hcalls, hdone⟩
  | destroy htodo =>
    refine ⟨fun hsome => absurd htodo hsome, h.order⟩

end ScopeState

/-! ## Behind the scope -/

/-- What a scope leaves behind, whoever else in the process waits for its children. -/
structure LeavesNobody (calls : List ScopeCall) (s : ScopeState) : Prop where
  /-- one `SIGKILL` for each child it has forked, the last one first -/
  killed : s.kills.map (·.kill.value) = s.made.reverse
  /-- it was aimed at the child itself, unless the child had been reaped by then -/
  aimed : ∀ killed ∈ s.kills, ∀ pid serial, killed.kill.value = .forked pid serial →
    (killed.kill.Good ↔ serial ∉ killed.reaped)
  /-- a child has been reaped by a `wait_for` of the scope, or by somebody else -/
  reaped : ∀ pid serial, .forked pid serial ∈ s.made → (serial ∈ s.kernel.reaped ↔
    (∃ report ∈ s.reports, serial ∈ report.reaped) ∨ serial ∈ s.taken)
  /-- a `wait_for` reports an end exactly when it has reaped a child -/
  ended : ∀ report ∈ s.reports, report.result.Ended ↔ report.reaped ≠ []
  /-- if nobody else has reaped a child of the scope, those it has reaped are those whose ends
  were reported by the `wait_for` on their own locals, and all others have been killed -/
  undisturbed : s.Undisturbed → ∀ (x : Nat) pid serial, s.made[x]? = some (.forked pid serial) →
    (serial ∈ s.kernel.reaped ↔ ∃ report ∈ s.reports, report.x = x ∧ report.result.Ended) ∧
      ∀ killed ∈ s.kills, killed.kill.value = .forked pid serial →
        (killed.kill.Good ↔ serial ∉ s.kernel.reaped)
  /-- if no call has thrown, every `wait_for` has reported -/
  waited : s.thrown = none → s.reports.map ScopeReport.x = calls.filterMap ScopeCall.waits

namespace ScopeState

variable {k₀ : Kernel} {s : ScopeState}

theorem Ok.reaped_iff (h : s.Ok k₀) (hk : k₀.WF) {x pid serial : Nat}
    (hx : s.made[x]? = some (.forked pid serial)) : serial ∈ s.kernel.reaped ↔
      (∃ report ∈ s.reports, serial ∈ report.reaped) ∨ serial ∈ s.taken := by
  rw [h.reaped serial]
  exact or_iff_right (h.notMem_reaped hk hx)

/-- With nobody else about, a child has been reaped exactly when its local has been told. -/
theorem Ok.reaped_iff_reported (h : s.Ok k₀) (hk : k₀.WF) (hundisturbed : s.Undisturbed)
    {x pid serial : Nat} (hx : s.made[x]? = some (.forked pid serial)) :
    serial ∈ s.kernel.reaped ↔ ∃ report ∈ s.reports, report.x = x ∧ report.result.Ended := by
  rw [h.reaped_iff hk hx]
  constructor
  · rintro (⟨report, hreport, hmem⟩ | htaken)
    · obtain ⟨pid', hx'⟩ := h.own hundisturbed report hreport serial hmem
      have hsame := h.distinct _ _ _ _ _ hx' hx
      exact ⟨report, hreport, hsame, (h.ended report hreport).mpr (List.ne_nil_of_mem hmem)⟩
    · exact absurd htaken (hundisturbed pid serial (List.mem_of_getElem? hx))
  · rintro ⟨report, hreport, rfl, hended⟩
    obtain ⟨serial', hmem⟩ := List.exists_mem_of_ne_nil _ ((h.ended report hreport).mp hended)
    obtain ⟨pid', hx'⟩ := h.own hundisturbed report hreport serial' hmem
    cases hx'.symm.trans hx
    exact .inl ⟨report, hreport, hmem⟩

/-- A child that nobody else reaps is reaped before the destructors run, or not at all. -/
theorem Ok.reaped_by_kill (h : s.Ok k₀) {killed : ScopeKill} (hkilled : killed ∈ s.kills)
    {serial : Nat} (hnot : serial ∉ s.taken) :
    serial ∈ killed.reaped ↔ serial ∈ s.kernel.reaped := by
  obtain ⟨hsub, hsince⟩ := h.kills killed hkilled
  exact ⟨hsub serial, fun hr => (hsince serial hr).resolve_right hnot⟩

end ScopeState

/-- **Nobody is left running behind `fork_and_run` or a `TESTP`**: when such a scope has been
left, by its end or by an exception of any of its calls, the destructors have sent one `SIGKILL`
for each child it had forked, the last one first, and it went to the child itself if and only
if nobody had reaped the child by then. Others in the process may wait for the children too. As
long as they reap none of them, a child has been reaped if and only if the `wait_for` on its own
local has reported its end. -/
theorem scope_leaves_nobody (self : Nat) (k : Kernel) (hk : k.WF) (calls : List ScopeCall)
    (hcalls : calls = forkAndRunCalls ∨ calls = testCalls) (ls : List ScopeLabel) (s : ScopeState)
    (h : (scopeSystem self).Run (.start k calls) ls s) (hend : s.Ended) :
    LeavesNobody calls s := by
  have hnodup : (calls.filterMap ScopeCall.waits).Nodup := by
    rcases hcalls with rfl | rfl <;> decide
  have hok : s.Ok k := h.invariant (fun _ _ _ hstep hx => hx.step hk hstep) (.start hk hnodup)
  have hfollows : s.Follows calls :=
    h.invariant (fun _ _ _ hstep hx => hx.step hstep) (.start k calls)
  obtain ⟨htodo, hlocals⟩ := hend
  refine ⟨?_, hok.aimed, fun pid serial hmem => ?_, hok.ended, ?_, fun hthrown => ?_⟩
  · rw [hok.split, hlocals, List.nil_append, List.reverse_reverse]
  · obtain ⟨x, hx⟩ := List.mem_iff_getElem?.mp hmem
    exact hok.reaped_iff hk hx
  · intro hundisturbed x pid serial hx
    refine ⟨hok.reaped_iff_reported hk hundisturbed hx, fun killed hkilled hvalue => ?_⟩
    have hnot : serial ∉ s.taken := hundisturbed pid serial (List.mem_of_getElem? hx)
    rw [hok.aimed killed hkilled pid serial hvalue, hok.reaped_by_kill hkilled hnot]
  · obtain ⟨done, hdone, hreports⟩ := hfollows.order hthrown
    rw [hdone, htodo, Option.getD_none, List.append_nil]
    exact hreports

/-- The client is stopped by a signal, the service ends on the `SIGTERM`, and before the scope
can wait for it, a `DeathObserver` has reaped it. -/
def serviceTaken : List ScopeLabel :=
  [.forked 5, .forked 6, .kernel (.stop 6 .sigTerm), .waited (.changed 6 (.stopped .sigTerm)),
    .signalSent, .kernel (.die 5 (.signaled .sigTerm false)),
    .othersWaited (.changed 5 (.terminated (.signaled .sigTerm false))), .failed .echild,
    .destroy, .destroy]

theorem serviceTaken_run :
    ∃ s, (scopeSystem 2).Run (.start .initOnly forkAndRunCalls) serviceTaken s ∧ s.Ended ∧
      s.thrown = some .echild ∧ s.made = [.forked 5 0, .forked 6 1] ∧ s.taken = [0] ∧
      s.kills.map ScopeKill.reaped = [[0], [0]] := by
  refine ⟨_, .cons (.forked rfl (.fork (by decide) rfl)) <|
    .cons (.forked rfl (.fork (by decide) rfl)) <| .cons (.kernel (.stop rfl rfl)) <|
    .cons (.waited rfl rfl (.stopped rfl rfl rfl rfl) rfl) <| .cons (.signalSent rfl) <|
    .cons (.kernel (.die rfl nofun)) <|
    .cons (@ScopeStep.othersWaited _ _ .ownGroup .wnohang _ _ (.reap rfl rfl rfl)) <|
    .cons (.waitFailed rfl rfl (.noChild ?_) rfl) <|
    .cons (@ScopeStep.destroy _ _ [.forked 5 0] _ rfl rfl) <|
    .cons (@ScopeStep.destroy _ _ [] _ rfl rfl) (.nil _), ⟨rfl, rfl⟩, rfl, rfl, rfl, rfl⟩
  rintro q c hslot rfl
  cases hslot

theorem scope_leaves_nobody_serviceTaken :
    ∃ s, (scopeSystem 2).Run (.start .initOnly forkAndRunCalls) serviceTaken s ∧
      s.thrown = some .echild ∧ s.taken = [0] ∧
      s.kills.map (·.kill.value) = [.forked 6 1, .forked 5 0] ∧
      ∀ killed ∈ s.kills, (killed.kill.value = .forked 6 1 → killed.kill.Good) ∧
        (killed.kill.value = .forked 5 0 → ¬ killed.kill.Good) := by
  obtain ⟨s, hrun, hend, hthrown, hmade, htaken, hreaped⟩ := serviceTaken_run
  have hleaves := scope_leaves_nobody 2 .initOnly Kernel.initOnly_fresh.wf forkAndRunCalls
    (.inl rfl) serviceTaken s hrun hend
  refine ⟨s, hrun, hthrown, htaken, ?_, fun killed hkilled => ?_⟩
  · rw [hleaves.killed, hmade]
    rfl
  · have hby : killed.reaped ∈ [[0], [0]] := hreaped ▸ List.mem_map_of_mem hkilled
    have hby : killed.reaped = [0] := by simpa using hby
    constructor
    · intro hvalue
      rw [hleaves.aimed killed hkilled 6 1 hvalue, hby]
      decide
    · intro hvalue
      rw [hleaves.aimed killed hkilled 5 0 hvalue, hby]
      decide

end ProcessCpp.Core
