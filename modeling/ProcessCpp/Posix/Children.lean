import ProcessCpp.Base.Prelude
import ProcessCpp.Base.Transition
import ProcessCpp.Posix.Basic

/-!
# Children of a process: `fork`, death, `SIGCHLD` and `waitpid`

The kernel as one parent sees it: which of its pids are its children, which belong to
somebody else, and whether `SIGCHLD` is pending.

A pid is free again as soon as its owner has been reaped and may then go to anybody,
so a pid does not name a process over time. Every fork therefore gets a serial
number, its position in `Kernel.forks`, and the record of who has been reaped is kept
by serial number.

- `KernelStep`: what happens outside the library: a fork, a child that ends, stops,
  resumes or changes its process group, strangers that come and go, and a `SIGCHLD`
  sent by hand. A death and the signal it raises are one step; the signal is a single
  pending bit, so deaths coalesce.
- `Waitpid`: `waitpid(2)` for one child or for the caller's process group. It reaps
  one ended child, or changes nothing.
- `Kernel.WF`: a child in the table is the one its serial number says and has not been
  reaped, and a child that has not been reaped still owns its pid. Every step keeps
  this (`WF.step`, `WF.waitpid`), with or without reuse of pids.
-/

namespace ProcessCpp.Posix

open ProcessCpp.Base

/-- What a child that has not been reaped is doing. -/
inductive Phase where
  | running
  | stopped (sig : SigNum)
  | zombie (t : Termination)
deriving DecidableEq

/-- A child of the caller. -/
structure Child where
  serial : Nat
  /-- it is in the caller's process group -/
  inGroup : Bool
  phase : Phase
deriving DecidableEq

/-- Who owns a pid. -/
inductive Slot where
  | vacant
  | child (c : Child)
  | stranger
deriving DecidableEq

/-- The kernel as one parent sees it. -/
structure Kernel where
  slots : Nat → Slot
  /-- the pids handed out by the parent's forks, in order -/
  forks : List Nat
  /-- the serial numbers of the children that have been reaped -/
  reaped : List Nat
  /-- `SIGCHLD` is pending -/
  sigchld : Bool

namespace Kernel

def setSlot (k : Kernel) (pid : Nat) (s : Slot) : Kernel :=
  { k with slots := Function.update k.slots pid s }

/-- `SIGCHLD` becomes pending, if it was not already. -/
def raise (k : Kernel) : Kernel := { k with sigchld := true }

/-- A new child, in the group of its parent. -/
def fork (k : Kernel) (pid : Nat) : Kernel :=
  { k.setSlot pid (.child ⟨k.forks.length, true, .running⟩) with forks := k.forks ++ [pid] }

def reap (k : Kernel) (pid : Nat) (c : Child) : Kernel :=
  { k.setSlot pid .vacant with reaped := c.serial :: k.reaped }

/-- The child with this serial number has ended and waits to be reaped. -/
def Zombie (k : Kernel) (pid serial : Nat) : Prop :=
  ∃ c t, k.slots pid = .child c ∧ c.serial = serial ∧ c.phase = .zombie t

/-- An ended child in the caller's process group. -/
def Doomed (k : Kernel) (pid : Nat) (c : Child) : Prop :=
  k.slots pid = .child c ∧ c.inGroup = true ∧ ∃ t, c.phase = .zombie t

/-- Every fork of the first kernel is one of the second. -/
def ForksKept (k k' : Kernel) : Prop :=
  ∀ serial pid : Nat, k.forks[serial]? = some pid → k'.forks[serial]? = some pid

/-- The child with this serial number has ended. -/
def Dead (k : Kernel) (pid serial : Nat) : Prop := k.Zombie pid serial ∨ serial ∈ k.reaped

end Kernel

/-! ## What happens outside the library -/

inductive KernelLabel where
  | fork (pid : Nat)
  | die (pid : Nat) (t : Termination)
  | stop (pid : Nat) (sig : SigNum)
  | resume (pid : Nat)
  | regroup (pid : Nat) (inGroup : Bool)
  | arrive (pid : Nat)
  | depart (pid : Nat)
  | raise
deriving DecidableEq

/-- The steps of the kernel and of the processes around the parent. Pid `1` is that
of init, which is nobody's child. -/
inductive KernelStep (k : Kernel) : KernelLabel → Kernel → Prop where
  | fork {pid} (hpid : 1 < pid) (hfree : k.slots pid = .vacant) :
      KernelStep k (.fork pid) (k.fork pid)
  | die {pid c t} (hslot : k.slots pid = .child c) (halive : ∀ t, c.phase ≠ .zombie t) :
      KernelStep k (.die pid t) (k.setSlot pid (.child { c with phase := .zombie t })).raise
  | stop {pid c sig} (hslot : k.slots pid = .child c) (hrun : c.phase = .running) :
      KernelStep k (.stop pid sig) (k.setSlot pid (.child { c with phase := .stopped sig })).raise
  | resume {pid c sig} (hslot : k.slots pid = .child c) (hstop : c.phase = .stopped sig) :
      KernelStep k (.resume pid) (k.setSlot pid (.child { c with phase := .running })).raise
  | regroup {pid c inGroup} (hslot : k.slots pid = .child c) :
      KernelStep k (.regroup pid inGroup) (k.setSlot pid (.child { c with inGroup }))
  | arrive {pid} (hfree : k.slots pid = .vacant) :
      KernelStep k (.arrive pid) (k.setSlot pid .stranger)
  | depart {pid} (hslot : k.slots pid = .stranger) :
      KernelStep k (.depart pid) (k.setSlot pid .vacant)
  | raise : KernelStep k .raise k.raise

/-! ## `waitpid(2)` -/

/-- The first argument of `waitpid`: a pid, or `0` for the caller's own group. -/
inductive WaitTarget where
  | process (pid : Nat)
  | ownGroup
deriving DecidableEq, Repr

/-- The call is about this child. -/
def WaitTarget.Selects : WaitTarget → Nat → Child → Prop
  | .process p, pid, _ => pid = p
  | .ownGroup, _, c => c.inGroup = true

/-- `WNOHANG`, `WUNTRACED` and `WCONTINUED`. -/
structure WaitOptions where
  nohang : Bool
  untraced : Bool
  continued : Bool
deriving DecidableEq, Repr

/-- The options of a call that passes `WNOHANG` alone. -/
def WaitOptions.wnohang : WaitOptions := ⟨true, false, false⟩

/-- What `waitpid` returns: `0`, the pid of a child with its change of state, or `-1`. -/
inductive WaitAnswer where
  | nothing
  | changed (pid : Nat) (c : StateChange)
  | failed (e : Errno)
deriving DecidableEq

/-- `waitpid(2)`. A child that has ended is reaped; a stop or a continuation is
reported only if it is asked for, and changes nothing. -/
inductive Waitpid (k : Kernel) (target : WaitTarget) (opts : WaitOptions) :
    WaitAnswer → Kernel → Prop where
  | reap {pid c t} (hslot : k.slots pid = .child c) (hsel : target.Selects pid c)
      (hz : c.phase = .zombie t) :
      Waitpid k target opts (.changed pid (.terminated t)) (k.reap pid c)
  | stopped {pid c sig} (hopt : opts.untraced = true) (hslot : k.slots pid = .child c)
      (hsel : target.Selects pid c) (hs : c.phase = .stopped sig) :
      Waitpid k target opts (.changed pid (.stopped sig)) k
  | continued {pid c} (hopt : opts.continued = true) (hslot : k.slots pid = .child c)
      (hsel : target.Selects pid c) (hr : c.phase = .running) :
      Waitpid k target opts (.changed pid .continued) k
  | nothing (hopt : opts.nohang = true)
      (hsome : ∃ pid c, k.slots pid = .child c ∧ target.Selects pid c)
      (hnone : ∀ pid c t, k.slots pid = .child c → target.Selects pid c → c.phase ≠ .zombie t) :
      Waitpid k target opts .nothing k
  | noChild (hnone : ∀ pid c, k.slots pid = .child c → ¬ target.Selects pid c) :
      Waitpid k target opts (.failed .echild) k
  | failed {e} (he : e ≠ .echild) : Waitpid k target opts (.failed e) k

/-- A `waitpid` changes nothing, or reaps the ended child it reports. -/
theorem Waitpid.cases_kernel {k k' : Kernel} {target : WaitTarget} {opts : WaitOptions}
    {a : WaitAnswer} (h : Waitpid k target opts a k') :
    k' = k ∨ ∃ pid c t, k.slots pid = .child c ∧ target.Selects pid c ∧ c.phase = .zombie t ∧
      a = .changed pid (.terminated t) ∧ k' = k.reap pid c := by
  cases h with
  | reap hslot hsel hz => exact .inr ⟨_, _, _, hslot, hsel, hz, rfl, rfl⟩
  | _ => exact .inl rfl

/-- The serial number of the child that `waitpid` has reaped, if this is its answer. -/
def WaitAnswer.takes (k : Kernel) : WaitAnswer → List Nat
  | .changed pid (.terminated _) =>
    match k.slots pid with
    | .child c => [c.serial]
    | .vacant | .stranger => []
  | .changed _ (.stopped _) | .changed _ .continued | .nothing | .failed _ => []

theorem WaitAnswer.takes_terminated {k : Kernel} {pid : Nat} {c : Child}
    (hslot : k.slots pid = .child c) (t : Termination) :
    (WaitAnswer.changed pid (.terminated t)).takes k = [c.serial] := by
  show (match k.slots pid with
    | .child c => [c.serial]
    | .vacant | .stranger => []) = [c.serial]
  rw [hslot]

/-- Who has been reaped after a `waitpid`. -/
theorem Waitpid.reaped_eq {k k' : Kernel} {target : WaitTarget} {opts : WaitOptions}
    {a : WaitAnswer} (h : Waitpid k target opts a k') : k'.reaped = a.takes k ++ k.reaped := by
  cases h with
  | reap hslot =>
    rw [WaitAnswer.takes_terminated hslot]
    rfl
  | _ => rfl

/-- With `WNOHANG` alone, the children that are reported have ended. -/
theorem Waitpid.terminated_of_wnohang {k k' : Kernel} {target : WaitTarget} {pid : Nat}
    {c : StateChange} (h : Waitpid k target .wnohang (.changed pid c) k') :
    ∃ t, c = .terminated t := by
  cases h with
  | reap hslot hsel hz => exact ⟨_, rfl⟩
  | stopped hopt => cases hopt
  | continued hopt => cases hopt

/-! ## Serial numbers, pids and the table -/

namespace Kernel

/-- The table and the record of forks and reaped children agree. -/
structure WF (k : Kernel) : Prop where
  slot : ∀ pid c, k.slots pid = .child c → k.forks[c.serial]? = some pid ∧ c.serial ∉ k.reaped
  owner : ∀ serial pid, k.forks[serial]? = some pid →
    serial ∈ k.reaped ∨ ∃ c, k.slots pid = .child c ∧ c.serial = serial
  pid_pos : ∀ pid ∈ k.forks, 1 < pid
  reaped_lt : ∀ serial ∈ k.reaped, serial < k.forks.length

/-- The kernel before the parent's first fork. -/
structure Fresh (k : Kernel) : Prop where
  forks : k.forks = []
  reaped : k.reaped = []
  slots : ∀ pid c, k.slots pid ≠ .child c

variable {k k' : Kernel}

theorem Fresh.wf (h : k.Fresh) : k.WF where
  slot pid c hslot := absurd hslot (h.slots pid c)
  owner serial pid hs := by simp [h.forks] at hs
  pid_pos pid hpid := by simp [h.forks] at hpid
  reaped_lt serial hs := by simp [h.reaped] at hs

/-- Only init is there before the first fork. -/
def initOnly : Kernel := ⟨fun pid => if pid = 1 then .stranger else .vacant, [], [], false⟩

theorem initOnly_fresh : initOnly.Fresh := by
  refine ⟨rfl, rfl, fun pid c => ?_⟩
  show (if pid = 1 then Slot.stranger else .vacant) ≠ .child c
  split <;> exact nofun

theorem slots_setSlot_self (k : Kernel) (pid : Nat) (s : Slot) : (k.setSlot pid s).slots pid = s :=
  Function.update_self ..

theorem slots_setSlot_of_ne (k : Kernel) {pid q : Nat} (s : Slot) (h : q ≠ pid) :
    (k.setSlot pid s).slots q = k.slots q :=
  Function.update_of_ne h ..

theorem slots_raise (k : Kernel) : k.raise.slots = k.slots := rfl

/-- A child of the new table at a pid is what was put there, or was there before. -/
theorem slots_setSlot_cases {pid q : Nat} {s s' : Slot} (h : (k.setSlot pid s).slots q = s') :
    (q = pid ∧ s = s') ∨ (q ≠ pid ∧ k.slots q = s') :=
  update_cases h

/-- Replacing a child by a later state of the same child. -/
theorem WF.setSlot_child (h : k.WF) {pid : Nat} {c d : Child} (hslot : k.slots pid = .child c)
    (hserial : d.serial = c.serial) : (k.setSlot pid (.child d)).WF where
  slot q e he := by
    rcases slots_setSlot_cases he with ⟨rfl, hd⟩ | ⟨-, hq⟩
    · cases hd
      rw [hserial]
      exact h.slot q c hslot
    · exact h.slot q e hq
  owner serial q hq := by
    rcases h.owner serial q hq with hr | ⟨e, he, hs⟩
    · exact .inl hr
    · by_cases hqp : q = pid
      · subst hqp
        rw [hslot] at he
        cases he
        exact .inr ⟨d, slots_setSlot_self .., hserial.trans hs⟩
      · exact .inr ⟨e, (slots_setSlot_of_ne k _ hqp).trans he, hs⟩
  pid_pos := h.pid_pos
  reaped_lt := h.reaped_lt

/-- Replacing what is no child by what is no child. -/
theorem WF.setSlot_other (h : k.WF) {pid : Nat} {s : Slot} (hold : ∀ c, k.slots pid ≠ .child c)
    (hnew : ∀ c, s ≠ .child c) : (k.setSlot pid s).WF where
  slot q e he := by
    rcases slots_setSlot_cases he with ⟨-, hs⟩ | ⟨-, hq⟩
    · exact absurd hs (hnew e)
    · exact h.slot q e hq
  owner serial q hq := by
    rcases h.owner serial q hq with hr | ⟨e, he, hs⟩
    · exact .inl hr
    · have hqp : q ≠ pid := by
        rintro rfl
        exact hold e he
      exact .inr ⟨e, (slots_setSlot_of_ne k _ hqp).trans he, hs⟩
  pid_pos := h.pid_pos
  reaped_lt := h.reaped_lt

theorem WF.fork (h : k.WF) {pid : Nat} (hpid : 1 < pid) (hfree : k.slots pid = .vacant) :
    (k.fork pid).WF where
  slot q e he := by
    rcases slots_setSlot_cases he with ⟨rfl, hs⟩ | ⟨-, hq⟩
    · cases hs
      refine ⟨List.getElem?_concat_length, fun hr => ?_⟩
      exact absurd (h.reaped_lt _ hr) (Nat.lt_irrefl _)
    · obtain ⟨ho, hr⟩ := h.slot q e hq
      exact ⟨(List.getElem?_append_left (List.getElem?_eq_some_iff.mp ho).1).trans ho, hr⟩
  owner serial q hq := by
    -- the serial number is that of an earlier fork, of this one, or of none
    rcases Nat.lt_trichotomy serial k.forks.length with hlt | heq | hgt
    · have hold : k.forks[serial]? = some q := (List.getElem?_append_left hlt).symm.trans hq
      rcases h.owner serial q hold with hr | ⟨e, he, hs⟩
      · exact .inl hr
      · have hqp : q ≠ pid := by
          rintro rfl
          rw [hfree] at he
          cases he
        exact .inr ⟨e, (slots_setSlot_of_ne k _ hqp).trans he, hs⟩
    · subst heq
      have hnew : (k.forks ++ [pid])[k.forks.length]? = some q := hq
      rw [List.getElem?_concat_length, Option.some.injEq] at hnew
      subst hnew
      exact .inr ⟨_, slots_setSlot_self .., rfl⟩
    · have hlen := (List.getElem?_eq_some_iff.mp hq).1
      have hlen' : serial < (k.forks ++ [pid]).length := hlen
      rw [List.length_append, List.length_singleton] at hlen'
      omega
  pid_pos q hq := by
    rcases List.mem_append.mp hq with hq | hq
    · exact h.pid_pos q hq
    · rw [List.mem_singleton.mp hq]
      exact hpid
  reaped_lt serial hs := by
    show serial < (k.forks ++ [pid]).length
    rw [List.length_append]
    exact Nat.lt_add_right _ (h.reaped_lt serial hs)

theorem WF.raise (h : k.WF) : k.raise.WF := ⟨h.slot, h.owner, h.pid_pos, h.reaped_lt⟩

theorem WF.reap (h : k.WF) {pid : Nat} {c : Child} (hslot : k.slots pid = .child c) :
    (k.reap pid c).WF where
  slot q e he := by
    rcases slots_setSlot_cases he with ⟨-, hs⟩ | ⟨hne, hq⟩
    · cases hs
    · obtain ⟨ho, hr⟩ := h.slot q e hq
      refine ⟨ho, fun hmem => ?_⟩
      rcases List.mem_cons.mp hmem with heq | hmem
      · -- two pids with one serial number
        have hp := (h.slot pid c hslot).1
        rw [← heq, ho] at hp
        exact hne (Option.some.inj hp)
      · exact hr hmem
  owner serial q hq := by
    rcases h.owner serial q hq with hr | ⟨e, he, hs⟩
    · exact .inl (List.mem_cons_of_mem _ hr)
    · by_cases hqp : q = pid
      · subst hqp
        rw [hslot] at he
        cases he
        subst hs
        exact .inl List.mem_cons_self
      · exact .inr ⟨e, (slots_setSlot_of_ne k _ hqp).trans he, hs⟩
  pid_pos := h.pid_pos
  reaped_lt serial hs := by
    rcases List.mem_cons.mp hs with rfl | hs
    · exact (List.getElem?_eq_some_iff.mp (h.slot pid c hslot).1).1
    · exact h.reaped_lt serial hs

theorem WF.step {l : KernelLabel} (h : k.WF) (hstep : KernelStep k l k') : k'.WF := by
  cases hstep with
  | fork hpid hfree => exact h.fork hpid hfree
  | die hslot _ => exact WF.raise (h.setSlot_child hslot rfl)
  | stop hslot _ => exact WF.raise (h.setSlot_child hslot rfl)
  | resume hslot _ => exact WF.raise (h.setSlot_child hslot rfl)
  | regroup hslot => exact h.setSlot_child hslot rfl
  | arrive hfree => exact h.setSlot_other (by simp [hfree]) nofun
  | depart hslot => exact h.setSlot_other (by simp [hslot]) nofun
  | raise => exact h.raise

theorem WF.waitpid {target : WaitTarget} {opts : WaitOptions} {a : WaitAnswer} (h : k.WF)
    (hw : Waitpid k target opts a k') : k'.WF := by
  rcases hw.cases_kernel with rfl | ⟨pid, c, t, hslot, -, -, -, rfl⟩
  · exact h
  · exact h.reap hslot

/-- A child that has not been reaped still owns its pid. -/
theorem WF.slot_of_not_reaped (h : k.WF) {pid serial : Nat}
    (hfork : k.forks[serial]? = some pid) (hr : serial ∉ k.reaped) :
    ∃ c, k.slots pid = .child c ∧ c.serial = serial :=
  (h.owner serial pid hfork).resolve_left hr

end Kernel

/-! ## What a step leaves alone -/

section Frame

variable {k k' : Kernel} {l : KernelLabel}

/-- The record of forks only grows. -/
theorem KernelStep.forksKept (h : KernelStep k l k') : k.ForksKept k' := by
  intro serial pid hs
  cases h with
  | fork => exact (List.getElem?_append_left (List.getElem?_eq_some_iff.mp hs).1).trans hs
  | _ => exact hs

theorem KernelStep.forks_length_le (h : KernelStep k l k') :
    k.forks.length ≤ k'.forks.length := by
  cases h with
  | fork =>
    show k.forks.length ≤ (k.forks ++ [_]).length
    rw [List.length_append]
    exact Nat.le_add_right _ _
  | _ => exact Nat.le_refl _

/-- Only a `waitpid` reaps. -/
theorem KernelStep.reaped (h : KernelStep k l k') : k'.reaped = k.reaped := by
  cases h <;> rfl

/-- A child that has been reaped keeps its fork, whoever is forked next. -/
theorem KernelStep.reaped_fork_iff (h : KernelStep k l k') (hwf : k.WF) {pid serial : Nat}
    (hr : serial ∈ k.reaped) : k'.forks[serial]? = some pid ↔ k.forks[serial]? = some pid := by
  obtain ⟨q, hq⟩ : ∃ q, k.forks[serial]? = some q :=
    ⟨_, List.getElem?_eq_getElem (hwf.reaped_lt serial hr)⟩
  rw [hq, h.forksKept serial q hq]

/-- Nothing outside the library takes a pending `SIGCHLD` away. -/
theorem KernelStep.sigchld (h : KernelStep k l k') (hs : k.sigchld = true) :
    k'.sigchld = true := by
  cases h with
  | fork | regroup | arrive | depart => exact hs
  | die | stop | resume | raise => rfl

/-- A new zombie comes with a pending `SIGCHLD`. -/
theorem KernelStep.zombie (h : KernelStep k l k') {pid serial : Nat}
    (hz : k'.Zombie pid serial) : k.Zombie pid serial ∨ k'.sigchld = true := by
  obtain ⟨c, t, hslot, hserial, hphase⟩ := hz
  have hold : k.slots pid = .child c → k.Zombie pid serial :=
    fun hs => ⟨c, t, hs, hserial, hphase⟩
  cases h with
  | fork =>
    rcases Kernel.slots_setSlot_cases hslot with ⟨-, hs⟩ | ⟨-, hs⟩
    · cases hs
      cases hphase
    · exact .inl (hold hs)
  | regroup hs' =>
    rcases Kernel.slots_setSlot_cases hslot with ⟨rfl, hs⟩ | ⟨-, hs⟩
    · cases hs
      exact .inl ⟨_, t, hs', hserial, hphase⟩
    · exact .inl (hold hs)
  | arrive | depart =>
    rcases Kernel.slots_setSlot_cases hslot with ⟨-, hs⟩ | ⟨-, hs⟩
    · cases hs
    · exact .inl (hold hs)
  | die | stop | resume | raise => exact .inr rfl

/-- The slot of a child that has ended is left alone, but for a change of its group. -/
theorem KernelStep.zombie_slot (h : KernelStep k l k') {pid : Nat} {c : Child} {t : Termination}
    (hslot : k.slots pid = .child c) (hz : c.phase = .zombie t) :
    k'.slots pid = .child c ∨
      ∃ inGroup, l = .regroup pid inGroup ∧ k'.slots pid = .child { c with inGroup } := by
  have hother : ∀ {q s}, pid ≠ q → (k.setSlot q s).slots pid = .child c :=
    fun hne => (Kernel.slots_setSlot_of_ne k _ hne).trans hslot
  -- every other step is about a slot that holds something else
  have hne : ∀ {q s}, k.slots q = s → s ≠ .child c → pid ≠ q := by
    rintro q s hq hs rfl
    exact hs (hq.symm.trans hslot)
  cases h with
  | fork _ hfree => exact .inl (hother (hne hfree nofun))
  | die hq halive =>
    refine .inl (hother (hne hq fun hd => ?_))
    cases hd
    exact halive t hz
  | stop hq hrun =>
    refine .inl (hother (hne hq fun hd => ?_))
    cases hd
    rw [hrun] at hz
    cases hz
  | resume hq hstop =>
    refine .inl (hother (hne hq fun hd => ?_))
    cases hd
    rw [hstop] at hz
    cases hz
  | @regroup q d inGroup hq =>
    by_cases hpq : pid = q
    · subst hpq
      rw [hq] at hslot
      cases hslot
      exact .inr ⟨inGroup, rfl, Kernel.slots_setSlot_self ..⟩
    · exact .inl (hother hpq)
  | arrive hfree => exact .inl (hother (hne hfree nofun))
  | depart hq => exact .inl (hother (hne hq nofun))
  | raise => exact .inl hslot

/-- A child that has ended stays so. -/
theorem KernelStep.dead (h : KernelStep k l k') {pid serial : Nat} (hd : k.Dead pid serial) :
    k'.Dead pid serial := by
  rcases hd with ⟨c, t, hslot, hserial, hphase⟩ | hr
  · rcases h.zombie_slot hslot hphase with hsame | ⟨inGroup, -, hsame⟩
    · exact .inl ⟨c, t, hsame, hserial, hphase⟩
    · exact .inl ⟨_, t, hsame, hserial, hphase⟩
  · exact .inr (h.reaped.symm ▸ hr)

/-- A `waitpid` puts no child into the table. -/
theorem Waitpid.slots_child {target : WaitTarget} {opts : WaitOptions} {a : WaitAnswer}
    (h : Waitpid k target opts a k') {pid : Nat} {c : Child} (hs : k'.slots pid = .child c) :
    k.slots pid = .child c := by
  rcases h.cases_kernel with rfl | ⟨q, d, t, hslot, -, -, -, rfl⟩
  · exact hs
  · rcases Kernel.slots_setSlot_cases hs with ⟨-, hv⟩ | ⟨-, hs⟩
    · cases hv
    · exact hs

theorem Waitpid.zombie {target : WaitTarget} {opts : WaitOptions} {a : WaitAnswer}
    (h : Waitpid k target opts a k') {pid serial : Nat} (hz : k'.Zombie pid serial) :
    k.Zombie pid serial := by
  obtain ⟨c, t, hs, hserial, hphase⟩ := hz
  exact ⟨c, t, h.slots_child hs, hserial, hphase⟩

theorem Waitpid.dead {target : WaitTarget} {opts : WaitOptions} {a : WaitAnswer}
    (h : Waitpid k target opts a k') {pid serial : Nat} (hd : k.Dead pid serial) :
    k'.Dead pid serial := by
  rcases h.cases_kernel with rfl | ⟨q, d, u, hslot, -, -, -, rfl⟩
  · exact hd
  rcases hd with ⟨c, t, hc, hserial, hphase⟩ | hr
  · by_cases hpq : pid = q
    · subst hpq
      rw [hslot] at hc
      cases hc
      exact .inr (hserial ▸ List.mem_cons_self)
    · exact .inl ⟨c, t, (Kernel.slots_setSlot_of_ne k _ hpq).trans hc, hserial, hphase⟩
  · exact .inr (List.mem_cons_of_mem _ hr)

/-- Who has been reaped stays reaped. -/
theorem Waitpid.reaped {target : WaitTarget} {opts : WaitOptions} {a : WaitAnswer}
    (h : Waitpid k target opts a k') {serial : Nat} (hr : serial ∈ k.reaped) :
    serial ∈ k'.reaped := by
  rcases h.cases_kernel with rfl | ⟨pid, c, t, -, -, -, -, rfl⟩
  · exact hr
  · exact List.mem_cons_of_mem _ hr

/-- After a report about a pid, every child that was ever forked with it has been reaped. -/
theorem Waitpid.reaped_of_changed {target : WaitTarget} {pid serial : Nat} {c : StateChange}
    (h : Waitpid k target .wnohang (.changed pid c) k') (hwf : k.WF)
    (hfork : k.forks[serial]? = some pid) : serial ∈ k'.reaped := by
  cases h with
  | @reap _ d t hslot hsel hz =>
    rcases hwf.owner serial pid hfork with hr | ⟨e, he, rfl⟩
    · exact List.mem_cons_of_mem _ hr
    · rw [hslot] at he
      cases he
      exact List.mem_cons_self
  | stopped hopt => cases hopt
  | continued hopt => cases hopt

/-- A child about which `waitpid` answers anything but `0` has been reaped, unless the call
failed for another reason than `ECHILD`. -/
theorem Waitpid.reaped_of_ne_nothing {pid serial : Nat} {a : WaitAnswer}
    (h : Waitpid k (.process pid) .wnohang a k') (hwf : k.WF)
    (hfork : k.forks[serial]? = some pid) (ha : a ≠ .nothing)
    (herr : ∀ e, a = .failed e → e = .echild) : serial ∈ k'.reaped := by
  cases h with
  | nothing => exact absurd rfl ha
  | @reap q d t hslot hsel hz =>
    obtain rfl : q = pid := hsel
    have hw : Waitpid k (.process q) .wnohang (.changed q (.terminated t)) (k.reap q d) :=
      .reap hslot rfl hz
    exact hw.reaped_of_changed hwf hfork
  | stopped hopt => cases hopt
  | continued hopt => cases hopt
  | noChild hnone =>
    rcases hwf.owner serial pid hfork with hr | ⟨c, hslot, -⟩
    · exact hr
    · exact absurd rfl (hnone pid c hslot)
  | failed he => exact absurd (herr _ rfl) he

/-- A `waitpid` for the group has somebody to reap, or can say that there is nobody. -/
theorem Kernel.doomed_or_none (k : Kernel) :
    (∃ pid c, k.Doomed pid c) ∨
      ∃ a, (a = .nothing ∨ a = .failed .echild) ∧ Waitpid k .ownGroup .wnohang a k := by
  by_cases hdoomed : ∃ pid c, k.Doomed pid c
  · exact .inl hdoomed
  · right
    have hnone : ∀ pid c t, k.slots pid = .child c → WaitTarget.ownGroup.Selects pid c →
        c.phase ≠ .zombie t := fun pid c t hslot hin hz => hdoomed ⟨pid, c, hslot, hin, t, hz⟩
    by_cases hsome : ∃ pid c, k.slots pid = .child c ∧ WaitTarget.ownGroup.Selects pid c
    · exact ⟨.nothing, .inl rfl, .nothing rfl hsome hnone⟩
    · refine ⟨.failed .echild, .inr rfl, .noChild ?_⟩
      exact fun pid c hslot hin => hsome ⟨pid, c, hslot, hin⟩

/-- When `waitpid` finds nothing more to report, no child of the group has ended. -/
theorem Waitpid.not_doomed {opts : WaitOptions} {a : WaitAnswer}
    (h : Waitpid k .ownGroup opts a k') (ha : a = .nothing ∨ a = .failed .echild) :
    k' = k ∧ ∀ pid c, ¬ k.Doomed pid c := by
  rcases ha with rfl | rfl
  · cases h with
    | nothing _ _ hnone =>
      refine ⟨rfl, fun pid c => ?_⟩
      rintro ⟨hslot, hin, t, hz⟩
      exact hnone pid c t hslot hin hz
  · cases h with
    | noChild hnone =>
      refine ⟨rfl, fun pid c => ?_⟩
      rintro ⟨hslot, hin, -⟩
      exact hnone pid c hslot hin
    | failed he => exact absurd rfl he

/-- Waiting for an ended child that has not been reaped reports its end. -/
theorem Waitpid.reports_end {pid : Nat} {c : Child} {t : Termination} {opts : WaitOptions}
    {a : WaitAnswer} (hslot : k.slots pid = .child c) (hz : c.phase = .zombie t)
    (h : Waitpid k (.process pid) opts a k') :
    a = .changed pid (.terminated t) ∨ ∃ e, e ≠ .echild ∧ a = .failed e := by
  cases h with
  | @reap q d u hd hsel hu =>
    obtain rfl : q = pid := hsel
    rw [hslot] at hd
    cases hd
    rw [hz] at hu
    cases hu
    exact .inl rfl
  | @stopped q d sig hopt hd hsel hs =>
    obtain rfl : q = pid := hsel
    rw [hslot] at hd
    cases hd
    rw [hz] at hs
    cases hs
  | @continued q d hopt hd hsel hr =>
    obtain rfl : q = pid := hsel
    rw [hslot] at hd
    cases hd
    rw [hz] at hr
    cases hr
  | nothing hopt hsome hnone => exact absurd hz (hnone pid c t hslot rfl)
  | noChild hnone => exact absurd rfl (hnone pid c hslot)
  | failed he => exact .inr ⟨_, he, rfl⟩

theorem Waitpid.forks_eq {target : WaitTarget} {opts : WaitOptions} {a : WaitAnswer}
    (h : Waitpid k target opts a k') : k'.forks = k.forks := by
  cases h <;> rfl

theorem Waitpid.forksKept {target : WaitTarget} {opts : WaitOptions} {a : WaitAnswer}
    (h : Waitpid k target opts a k') : k.ForksKept k' := by
  intro serial pid hs
  rw [h.forks_eq]
  exact hs

theorem Waitpid.sigchld {target : WaitTarget} {opts : WaitOptions} {a : WaitAnswer}
    (h : Waitpid k target opts a k') : k'.sigchld = k.sigchld := by
  cases h <;> rfl

end Frame

/-! ## Without reuse of pids and without changes of group -/

section NoReuse

variable {k k' : Kernel} {l : KernelLabel} {pid serial : Nat}

theorem Kernel.serial_inj (hnodup : k.forks.Nodup) {serial' : Nat}
    (h : k.forks[serial]? = some pid) (h' : k.forks[serial']? = some pid) :
    serial = serial' :=
  (List.getElem?_inj (List.getElem?_eq_some_iff.mp h).1 hnodup).mp (h.trans h'.symm)

/-- The child found under a pid is the one its fork made. -/
theorem Kernel.WF.serial_eq (hwf : k.WF) (hnodup : k.forks.Nodup)
    (hfork : k.forks[serial]? = some pid) {c : Child} (hslot : k.slots pid = .child c) :
    c.serial = serial :=
  Kernel.serial_inj hnodup (hwf.slot pid c hslot).1 hfork

/-- When `waitpid` with `WNOHANG` returns `0`, the child it was asked about is alive. -/
theorem Waitpid.not_dead {opts : WaitOptions} (hwf : k.WF) (hnodup : k.forks.Nodup)
    (hfork : k.forks[serial]? = some pid)
    (h : Waitpid k (.process pid) opts .nothing k') : ¬ k'.Dead pid serial := by
  cases h with
  | nothing hopt hsome hnone =>
    obtain ⟨q, c, hslot, hsel⟩ := hsome
    obtain rfl : q = pid := hsel
    rintro (⟨d, t, hd, -, hphase⟩ | hreaped)
    · exact hnone q d t hd rfl hphase
    · rw [← hwf.serial_eq hnodup hfork hslot] at hreaped
      exact (hwf.slot q c hslot).2 hreaped

theorem KernelStep.grouped (h : KernelStep k l k')
    (hl : ∀ pid inGroup, l = .regroup pid inGroup → inGroup = true)
    (hk : ∀ pid c, k.slots pid = .child c → c.inGroup = true) :
    ∀ pid c, k'.slots pid = .child c → c.inGroup = true := by
  intro pid c hslot
  cases h with
  | raise => exact hk pid c hslot
  | fork | arrive | depart =>
    rcases Kernel.slots_setSlot_cases hslot with ⟨-, hs⟩ | ⟨-, hs⟩
    · cases hs <;> rfl
    · exact hk pid c hs
  | die hold | stop hold | resume hold =>
    rcases Kernel.slots_setSlot_cases hslot with ⟨rfl, hs⟩ | ⟨-, hs⟩
    · cases hs
      have hin := hk pid _ hold
      exact hin
    · exact hk pid c hs
  | regroup hold =>
    rcases Kernel.slots_setSlot_cases hslot with ⟨rfl, hs⟩ | ⟨-, hs⟩
    · cases hs
      exact hl _ _ rfl
    · exact hk pid c hs

theorem KernelStep.nodup (h : KernelStep k l k')
    (hl : ∀ pid, l = .fork pid → pid ∉ k.forks) (hk : k.forks.Nodup) : k'.forks.Nodup := by
  cases h with
  | @fork pid =>
    show (k.forks ++ [pid]).Nodup
    refine List.nodup_append.mpr ⟨hk, List.pairwise_singleton _ pid, fun a ha b hb => ?_⟩
    rintro rfl
    rw [List.mem_singleton.mp hb] at ha
    exact hl pid rfl ha
  | _ => exact hk

end NoReuse

/-! ## While the dead stay where they are -/

/-- No dead child is moved to another process group. -/
def DeadStay (k : Kernel) : KernelLabel → Prop
  | .regroup pid _ => ∀ c t, k.slots pid = .child c → c.phase ≠ .zombie t
  | _ => True

/-- No child dies, and no dead child is moved to another process group. -/
def Quiet (k : Kernel) : KernelLabel → Prop
  | .die _ _ => False
  | .regroup pid _ => ∀ c t, k.slots pid = .child c → c.phase ≠ .zombie t
  | _ => True

theorem DeadStay.quiet {k : Kernel} {l : KernelLabel} (h : DeadStay k l)
    (halive : ∀ pid t, l ≠ .die pid t) : Quiet k l := by
  cases l with
  | die pid t => exact halive pid t rfl
  | regroup => exact h
  | _ => trivial

theorem KernelStep.zombie_kept {k k' : Kernel} {l : KernelLabel} (h : KernelStep k l k')
    (hstay : DeadStay k l) {pid : Nat} {c : Child} {t : Termination}
    (hslot : k.slots pid = .child c) (hz : c.phase = .zombie t) : k'.slots pid = .child c := by
  rcases h.zombie_slot hslot hz with hsame | ⟨inGroup, rfl, -⟩
  · exact hsame
  · exact absurd hz (hstay c t hslot)

theorem Kernel.doomed_setSlot {k : Kernel} {q : Nat} {slot : Slot}
    (hold : ∀ c, ¬ k.Doomed q c) (hnew : ∀ c t, slot = .child c → c.phase ≠ .zombie t)
    {pid : Nat} {c : Child} : (k.setSlot q slot).Doomed pid c ↔ k.Doomed pid c := by
  by_cases hq : pid = q
  · subst hq
    constructor
    · rintro ⟨hslot, -, t, hz⟩
      rw [Kernel.slots_setSlot_self] at hslot
      exact absurd hz (hnew c t hslot)
    · exact fun h => absurd h (hold c)
  · unfold Kernel.Doomed
    rw [Kernel.slots_setSlot_of_ne k slot hq]

/-- A quiet step neither adds to the dead children of the group nor takes any away. -/
theorem KernelStep.doomed_iff {k k' : Kernel} {l : KernelLabel} (h : KernelStep k l k')
    (hquiet : Quiet k l) {pid : Nat} {c : Child} : k'.Doomed pid c ↔ k.Doomed pid c := by
  -- the slot that changes holds no dead child, neither before nor afterwards
  have halive : ∀ {q d}, k.slots q = .child d → (∀ t, d.phase ≠ .zombie t) →
      ∀ c, ¬ k.Doomed q c := by
    rintro q d hd hphase c ⟨hslot, -, t, hz⟩
    rw [hd] at hslot
    cases hslot
    exact hphase t hz
  have hnone : ∀ {q slot}, k.slots q = slot → (∀ d, slot ≠ .child d) → ∀ c, ¬ k.Doomed q c := by
    rintro q _ rfl hslot c hc
    exact hslot c hc.1
  cases h with
  | fork hpid hfree =>
    refine Kernel.doomed_setSlot (hnone hfree nofun) ?_
    rintro c t hslot hz
    cases hslot
    cases hz
  | die => exact hquiet.elim
  | stop hslot hrun =>
    refine Kernel.doomed_setSlot (halive hslot fun t hz => ?_) ?_
    · rw [hrun] at hz
      cases hz
    · rintro c t hc hz
      cases hc
      cases hz
  | resume hslot hstop =>
    refine Kernel.doomed_setSlot (halive hslot fun t hz => ?_) ?_
    · rw [hstop] at hz
      cases hz
    · rintro c t hc hz
      cases hc
      cases hz
  | @regroup q d inGroup hslot =>
    have hphase : ∀ t, d.phase ≠ .zombie t := fun t => hquiet d t hslot
    refine Kernel.doomed_setSlot (halive hslot hphase) ?_
    rintro c t hc hz
    cases hc
    exact hphase t hz
  | arrive hfree =>
    refine Kernel.doomed_setSlot (hnone hfree nofun) ?_
    intro c t hc
    cases hc
  | depart hslot =>
    refine Kernel.doomed_setSlot (hnone hslot nofun) ?_
    intro c t hc
    cases hc
  | raise => exact Iff.rfl

/-- A death adds one dead child, if it happens in the group. -/
theorem KernelStep.doomed_of_die {k k' : Kernel} {q : Nat} {t : Termination}
    (h : KernelStep k (.die q t) k') {pid : Nat} {c : Child} :
    k'.Doomed pid c ↔ k.Doomed pid c ∨ pid = q ∧
      ∃ d, k.slots q = .child d ∧ d.inGroup = true ∧ c = { d with phase := .zombie t } := by
  cases h with
  | @die _ d _ hslot halive =>
    by_cases hpq : pid = q
    · subst hpq
      constructor
      · rintro ⟨hc, hin, -⟩
        obtain rfl := Slot.child.inj ((Kernel.slots_setSlot_self ..).symm.trans hc)
        exact .inr ⟨rfl, d, hslot, hin, rfl⟩
      · rintro (⟨hc, -, u, hz⟩ | ⟨-, e, he, hin, rfl⟩)
        · obtain rfl := Slot.child.inj (hslot.symm.trans hc)
          exact absurd hz (halive u)
        · obtain rfl := Slot.child.inj (hslot.symm.trans he)
          exact ⟨Kernel.slots_setSlot_self .., hin, t, rfl⟩
    · have hsame : ∀ s, (k.setSlot q s).raise.slots pid = k.slots pid :=
        fun s => Kernel.slots_setSlot_of_ne k s hpq
      unfold Kernel.Doomed
      rw [hsame]
      constructor
      · exact .inl
      · rintro (hc | ⟨hp, -⟩)
        · exact hc
        · exact absurd hp hpq

/-! ## The end that is still to be waited for -/

/-- The kernel by itself. -/
def kernelSystem : LTS Kernel KernelLabel where
  step := KernelStep

/-- However the kernel goes on, the child is found under its pid, and a `waitpid` for it
reports its real end once it has ended, or fails for another reason than `ECHILD`. -/
def Kernel.Waitable (k : Kernel) (pid serial : Nat) : Prop :=
  ∀ ls k₁, kernelSystem.Run k ls k₁ → ∃ c, k₁.slots pid = .child c ∧ c.serial = serial ∧
    ∀ opts a k₂, Waitpid k₁ (.process pid) opts a k₂ → a ≠ .failed .echild ∧
      ∀ t, c.phase = .zombie t →
        a = .changed pid (.terminated t) ∨ ∃ e, e ≠ .echild ∧ a = .failed e

/-- `ECHILD` says that the pid is no child's. -/
theorem Waitpid.ne_echild {k k' : Kernel} {pid : Nat} {c : Child} {opts : WaitOptions}
    {a : WaitAnswer} (h : Waitpid k (.process pid) opts a k') (hslot : k.slots pid = .child c) :
    a ≠ .failed .echild := by
  rintro rfl
  cases h with
  | noChild hnone => exact hnone pid c hslot rfl
  | failed he => exact he rfl

theorem Kernel.WF.waitable {k : Kernel} (hwf : k.WF) {pid serial : Nat}
    (hfork : k.forks[serial]? = some pid) (hr : serial ∉ k.reaped) : k.Waitable pid serial := by
  intro ls k₁ hrun
  obtain ⟨hwf₁, hfork₁, hr₁⟩ : k₁.WF ∧ k₁.forks[serial]? = some pid ∧ serial ∉ k₁.reaped := by
    refine hrun.invariant (P := fun k => k.WF ∧ k.forks[serial]? = some pid ∧
      serial ∉ k.reaped) ?_ ⟨hwf, hfork, hr⟩
    rintro j l j' hstep ⟨hwf, hfork, hr⟩
    exact ⟨hwf.step hstep, hstep.forksKept serial pid hfork, hstep.reaped ▸ hr⟩
  obtain ⟨c, hslot, hserial⟩ := hwf₁.slot_of_not_reaped hfork₁ hr₁
  refine ⟨c, hslot, hserial, fun opts a k₂ hw => ⟨hw.ne_echild hslot, fun t hz => ?_⟩⟩
  exact hw.reports_end hslot hz

end ProcessCpp.Posix
