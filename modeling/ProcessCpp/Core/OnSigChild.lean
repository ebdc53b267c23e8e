import Mathlib.Data.Finset.Card
import Mathlib.Data.Set.Insert
import ProcessCpp.Core.DeathObserver

/-!
# What one call of `on_sig_child` does (child_process.cpp:105–139)

The header promises that `on_sig_child` "checks and reaps all child processes registered
with the observer instance". The code asks `waitpid` for pid `0`, that is for any child in
the process group of the caller, and looks into the map only afterwards: it reaps children
that nobody registered, and overlooks registered ones that left the group.

While the call runs, the kernel goes on: children are forked and die, and the pids of reaped
ones go to others. The caller's other threads are elsewhere: none of them is inside the
observer or waits for a child.

- `oscSystem`: the steps of the call next to those of the kernel, and `OscReturns`, a run of it
  up to the return;
- `Swept`: how far the loop has come, kept by every step of the call (`Swept.step`) and of
  the kernel (`Swept.other`);
- `SparesOthers`: the loop reaps registered children only. A step keeps this unless it is a
  death of somebody else in the group (`sparesOthers_step`);
- `on_sig_child_exact_iff`: the call does what the header says if and only if the
  registered dead children are the doomed ones, and no others die in the group meanwhile.
-/

namespace ProcessCpp.Core

open ProcessCpp.Base ProcessCpp.Posix

/-! ## The call -/

/-- A call of `on_sig_child`. It has returned when there is no `pc`. -/
structure OscCall where
  kernel : Kernel
  observer : Observer
  pc : Option OscPc

inductive OscCallStep (me : Nat) (s : OscCall) : OscLabel → OscCall → Prop where
  | step {pc l k' o' pc'} (hpc : s.pc = some pc)
      (h : OscStep me s.kernel s.observer pc l k' o' pc') : OscCallStep me s l ⟨k', o', pc'⟩

inductive DrainLabel where
  | own (l : OscLabel)
  | other (l : KernelLabel)
deriving DecidableEq

/-- A step of the call, or one of the kernel. -/
inductive OscSystemStep (me : Nat) (s : OscCall) : DrainLabel → OscCall → Prop where
  | own {l s'} (h : OscCallStep me s l s') : OscSystemStep me s (.own l) s'
  | other {l k'} (h : KernelStep s.kernel l k') :
      OscSystemStep me s (.other l) { s with kernel := k' }

def oscSystem (me : Nat) : LTS OscCall DrainLabel where
  step := OscSystemStep me

/-- The steps the kernel takes meanwhile meet `G`. -/
def Meanwhile (G : Kernel → KernelLabel → Prop) (s : OscCall) : DrainLabel → Prop
  | .own _ => True
  | .other l => G s.kernel l

/-- A call that returns, with the labels before its last step. -/
def OscReturns (T : LTS OscCall DrainLabel) (me : Nat) (k : Kernel) (o : Observer)
    (ls : List DrainLabel) (k' : Kernel) (o' : Observer) : Prop :=
  ∃ s l, T.Run ⟨k, o, some .wait⟩ ls s ∧ OscCallStep me s l ⟨k', o', none⟩

/-- The calls during which the dead stay in their process groups. -/
def deadStaySystem (me : Nat) : LTS OscCall DrainLabel :=
  (oscSystem me).restrict (Meanwhile DeadStay)

/-! ## How far the loop has come -/

/-- The child has been reaped since, with this pid. -/
def ReapedSince (k₀ k : Kernel) (pid serial : Nat) : Prop :=
  serial ∈ k.reaped ∧ serial ∉ k₀.reaped ∧ k.forks[serial]? = some pid

/-- The pids of the children reaped since are `done`, and whoever was dead before is still
there, or was in the group and has been reaped. -/
structure KernelSwept (k₀ : Kernel) (done : Set Nat) (k : Kernel) : Prop where
  wf : k.WF
  forks : k₀.ForksKept k
  reaped : ∀ serial ∈ k₀.reaped, serial ∈ k.reaped
  since : ∀ pid, pid ∈ done ↔ ∃ serial, ReapedSince k₀ k pid serial
  dead : ∀ pid c t, k₀.slots pid = .child c → c.phase = .zombie t →
    k.slots pid = .child c ∨ c.inGroup = true ∧ c.serial ∈ k.reaped

/-- The entries under the pids `done` have been erased, those under `told` announced. -/
structure ObserverSwept (o₀ : Observer) (done told : Set Nat) (o : Observer) : Prop where
  erased : ∀ pid ∈ done, o.children pid = none
  kept : ∀ pid, pid ∉ done → o.children pid = o₀.children pid
  died : ∃ news, o.died = o₀.died ++ news ∧
    ∀ pid ∈ told, ∀ c, o₀.children pid = some c → c ∈ news

variable {me : Nat} {k₀ k k' : Kernel} {o₀ o o' : Observer} {done told : Set Nat}

theorem KernelSwept.refl (hwf : k.WF) : KernelSwept k ∅ k where
  wf := hwf
  forks _ _ h := h
  reaped _ h := h
  since pid := by
    constructor
    · exact fun h => h.elim
    · rintro ⟨serial, hr, hnot, -⟩
      exact absurd hr hnot
  dead _ _ _ hslot _ := .inl hslot

theorem ObserverSwept.refl (o : Observer) : ObserverSwept o ∅ ∅ o where
  erased _ h := h.elim
  kept _ _ := rfl
  died := ⟨[], (List.append_nil _).symm, fun _ h => h.elim⟩

theorem reapedSince_iff {l : KernelLabel} (hwf : k.WF) (h : KernelStep k l k')
    {pid serial : Nat} : ReapedSince k₀ k' pid serial ↔ ReapedSince k₀ k pid serial := by
  unfold ReapedSince
  rw [h.reaped]
  exact and_congr_right fun hr => and_congr_right fun _ => h.reaped_fork_iff hwf hr

theorem KernelSwept.other (h : KernelSwept k₀ done k) {l : KernelLabel} (hstep : KernelStep k l k')
    (hstay : DeadStay k l) : KernelSwept k₀ done k' where
  wf := h.wf.step hstep
  forks serial pid hs := hstep.forksKept serial pid (h.forks serial pid hs)
  reaped serial hr := hstep.reaped ▸ h.reaped serial hr
  since pid := (h.since pid).trans (exists_congr fun _ => (reapedSince_iff h.wf hstep).symm)
  dead pid c t hslot hz := by
    rcases h.dead pid c t hslot hz with hsame | ⟨hin, hr⟩
    · exact .inl (hstep.zombie_kept hstay hsame hz)
    · exact .inr ⟨hin, hstep.reaped ▸ hr⟩

theorem KernelSwept.reap (h : KernelSwept k₀ done k) {pid : Nat} {c : Child}
    (hdoomed : k.Doomed pid c) : KernelSwept k₀ (insert pid done) (k.reap pid c) := by
  obtain ⟨hslot, hin, -⟩ := hdoomed
  obtain ⟨hfork, hnot⟩ := h.wf.slot pid c hslot
  refine ⟨h.wf.reap hslot, h.forks, fun serial hr => ?_, fun q => ?_, fun q d t hd hz => ?_⟩
  · exact List.mem_cons_of_mem _ (h.reaped serial hr)
  · rw [Set.mem_insert_iff, h.since q]
    constructor
    · rintro (rfl | ⟨serial, hr, hnew, hq⟩)
      · exact ⟨c.serial, List.mem_cons_self, fun hr => hnot (h.reaped _ hr), hfork⟩
      · exact ⟨serial, List.mem_cons_of_mem _ hr, hnew, hq⟩
    · rintro ⟨serial, hr, hnew, hq⟩
      rcases List.mem_cons.mp hr with rfl | hr
      · exact .inl (Option.some.inj (hq.symm.trans hfork))
      · exact .inr ⟨serial, hr, hnew, hq⟩
  · rcases h.dead q d t hd hz with hsame | ⟨hgroup, hr⟩
    · by_cases hqp : q = pid
      · -- it was dead at the call already, and is the one reaped now
        subst hqp
        obtain rfl := Slot.child.inj (hslot.symm.trans hsame)
        exact .inr ⟨hin, List.mem_cons_self⟩
      · exact .inl ((Kernel.slots_setSlot_of_ne k _ hqp).trans hsame)
    · exact .inr ⟨hgroup, List.mem_cons_of_mem _ hr⟩

/-- A pid without an entry needs no erasure and no announcement. -/
theorem ObserverSwept.skip (h : ObserverSwept o₀ done done o) {pid : Nat}
    (hnone : o.children pid = none) : ObserverSwept o₀ (insert pid done) (insert pid done) o := by
  obtain ⟨news, hdied, htold⟩ := h.died
  refine ⟨fun q hq => ?_, fun q hq => ?_, news, hdied, fun q hq c hc => ?_⟩
  · rcases Set.mem_insert_iff.mp hq with rfl | hq
    · exact hnone
    · exact h.erased q hq
  · exact h.kept q fun hmem => hq (Set.mem_insert_of_mem pid hmem)
  · refine htold q ?_ c hc
    rcases Set.mem_insert_iff.mp hq with rfl | hq
    · -- the entry it had at the call is gone, so it is one of those erased before
      by_contra hnew
      rw [h.kept q hnew, hc] at hnone
      cases hnone
    · exact hq

theorem ObserverSwept.emit (h : ObserverSwept o₀ done done o) {pid : Nat} {c : ChildProcess}
    (hc : o₀.children pid = some c) : ObserverSwept o₀ done (insert pid done) (o.emit c) := by
  obtain ⟨news, hdied, htold⟩ := h.died
  refine ⟨h.erased, h.kept, news ++ [c], ?_, fun q hq d hd => ?_⟩
  · show o.died ++ [c] = _
    rw [hdied, List.append_assoc]
  · rcases Set.mem_insert_iff.mp hq with rfl | hq
    · rw [hc] at hd
      cases hd
      exact List.mem_append_right _ (List.mem_singleton_self _)
    · exact List.mem_append_left _ (htold q hq d hd)

theorem ObserverSwept.erase {pid : Nat} (h : ObserverSwept o₀ done (insert pid done) o) :
    ObserverSwept o₀ (insert pid done) (insert pid done) (o.erase pid) := by
  refine ⟨fun q hq => ?_, fun q hq => ?_, h.died⟩
  · show Function.update o.children pid none q = none
    by_cases hqp : q = pid
    · rw [hqp, Function.update_self]
    · rw [Function.update_of_ne hqp]
      exact h.erased q ((Set.mem_insert_iff.mp hq).resolve_left hqp)
  · have hqp : q ≠ pid := fun he => hq (he ▸ Set.mem_insert pid done)
    have hqd : q ∉ done := fun hmem => hq (Set.mem_insert_of_mem pid hmem)
    exact (Function.update_of_ne hqp ..).trans (h.kept q hqd)

theorem ObserverSwept.setGuard (h : ObserverSwept o₀ done told o) (g : Option Locker) :
    ObserverSwept o₀ done told { o with guard := g } :=
  ⟨h.erased, h.kept, h.died⟩

/-- Where the loop stands: the kernel is one pid ahead of the observer while a reaped pid
is in hand. -/
inductive Swept (k₀ : Kernel) (o₀ : Observer) (k : Kernel) (o : Observer) : OscPc → Prop where
  | wait {done : Set Nat} (hk : KernelSwept k₀ done k) (ho : ObserverSwept o₀ done done o) :
      Swept k₀ o₀ k o .wait
  | leaving {done : Set Nat} (hk : KernelSwept k₀ done k) (ho : ObserverSwept o₀ done done o) :
      Swept k₀ o₀ k o .leaving
  | reaped {done : Set Nat} {pid t} (hk : KernelSwept k₀ (insert pid done) k)
      (ho : ObserverSwept o₀ done done o) : Swept k₀ o₀ k o (.reaped pid (.terminated t))
  | locked {done : Set Nat} {pid t} (hk : KernelSwept k₀ (insert pid done) k)
      (ho : ObserverSwept o₀ done done o) : Swept k₀ o₀ k o (.locked pid (.terminated t))
  | found {done : Set Nat} {pid t c} (hk : KernelSwept k₀ (insert pid done) k)
      (ho : ObserverSwept o₀ done done o) (hc : o₀.children pid = some c) :
      Swept k₀ o₀ k o (.found pid (.terminated t) c)
  | emitted {done : Set Nat} {pid c} (hk : KernelSwept k₀ (insert pid done) k)
      (ho : ObserverSwept o₀ done (insert pid done) o) : Swept k₀ o₀ k o (.emitted pid c)

/-- An entry that is still there is the one that was there at the call. -/
theorem ObserverSwept.children_eq_some (h : ObserverSwept o₀ done told o) {pid : Nat}
    {c : ChildProcess} (hc : o.children pid = some c) : o₀.children pid = some c := by
  have hnew : pid ∉ done := by
    intro hmem
    rw [h.erased pid hmem] at hc
    cases hc
  exact (h.kept pid hnew).symm.trans hc

theorem Swept.step {pc pc' : OscPc} {l : OscLabel} (h : Swept k₀ o₀ k o pc)
    (hstep : OscStep me k o pc l k' o' (some pc')) : Swept k₀ o₀ k' o' pc' := by
  cases h with
  | wait hk ho =>
    cases hstep with
    | stray hw =>
      cases hw with
      | noChild => exact .wait hk ho
      | failed => exact .wait hk ho
    | reaped hw =>
      cases hw with
      | reap hslot hsel hz => exact .reaped (hk.reap ⟨hslot, hsel, _, hz⟩) ho
      -- `WNOHANG` alone asks neither for stops nor for resumptions
      | stopped hopt => cases hopt
      | continued hopt => cases hopt
  | leaving hk ho =>
    cases hstep with
    | unlock => exact .wait hk (ho.setGuard _)
  | reaped hk ho =>
    cases hstep with
    | lock => exact .locked hk (ho.setGuard _)
  | locked hk ho =>
    cases hstep with
    | found hfind => exact .found hk ho (ho.children_eq_some hfind)
    | notFound hfind => exact .leaving hk (ho.skip hfind)
  | @found done pid t c hk ho hc =>
    cases hstep with
    | emit => exact .emitted hk (ho.emit hc)
    | skip hended => exact absurd (t.wifsignaled_or_wifexited.symm.trans hended) (by decide)
  | emitted hk ho =>
    cases hstep with
    | erase => exact .leaving hk ho.erase

theorem Swept.other {pc : OscPc} {l : KernelLabel} (h : Swept k₀ o₀ k o pc)
    (hstep : KernelStep k l k') (hstay : DeadStay k l) : Swept k₀ o₀ k' o pc := by
  cases h with
  | wait hk ho => exact .wait (hk.other hstep hstay) ho
  | leaving hk ho => exact .leaving (hk.other hstep hstay) ho
  | reaped hk ho => exact .reaped (hk.other hstep hstay) ho
  | locked hk ho => exact .locked (hk.other hstep hstay) ho
  | found hk ho hc => exact .found (hk.other hstep hstay) ho hc
  | emitted hk ho => exact .emitted (hk.other hstep hstay) ho

theorem swept_run {ls : List DrainLabel} {s : OscCall} (hwf : k.WF)
    (h : (deadStaySystem me).Run ⟨k, o, some .wait⟩ ls s) {pc : OscPc} (hpc : s.pc = some pc) :
    Swept k o s.kernel s.observer pc := by
  -- the kernel's steps leave the place of the call alone, so the invariant speaks of both
  refine h.invariant (P := fun t => ∀ pc, t.pc = some pc → Swept k o t.kernel t.observer pc)
    ?_ ?_ pc hpc
  · rintro t l t' ⟨hstep, hmeanwhile⟩ ht pc' hpc'
    cases hstep with
    | own hown =>
      obtain ⟨hpc, hosc⟩ := hown
      obtain rfl : _ = some pc' := hpc'
      exact (ht _ hpc).step hosc
    | other hk => exact (ht pc' hpc').other hk hmeanwhile
  · rintro _ ⟨⟩
    exact .wait (.refl hwf) (.refl o)

/-- What a call that returns has done: the entries of those it reaped have been erased and
announced, and nobody in the group is left to reap. -/
theorem OscReturns.swept {ls : List DrainLabel} (hwf : k.WF)
    (h : OscReturns (deadStaySystem me) me k o ls k' o') :
    ∃ done, KernelSwept k done k' ∧ ObserverSwept o done done o' ∧ ∀ pid c, ¬ k'.Doomed pid c := by
  obtain ⟨s, l, hrun, hpc, hosc⟩ := h
  have hswept := swept_run hwf hrun hpc
  cases hosc with
  | noMoreChildren hw ha =>
    obtain ⟨rfl, hnone⟩ := hw.not_doomed ha
    cases hswept with
    | wait hk ho => exact ⟨_, hk, ho, hnone⟩

/-! ## What the header promises -/

/-- The registered dead have been reaped, announced and erased, and nobody else has been
reaped since, so that waiting for any other child reports its real end. -/
structure ReapsExactly (k : Kernel) (o : Observer) (k' : Kernel) (o' : Observer) : Prop where
  registered : ∀ pid serial, o.children pid = some (.forked pid serial) → k.Dead pid serial →
    serial ∈ k'.reaped ∧ o'.children pid = none ∧
      ∃ news, o'.died = o.died ++ news ∧ .forked pid serial ∈ news
  /-- also those forked while the call ran -/
  unregistered : ∀ pid serial, k'.forks[serial]? = some pid → serial ∉ k.reaped →
    o.children pid ≠ some (.forked pid serial) → serial ∉ k'.reaped ∧ k'.Waitable pid serial

/-- The registered dead children are the doomed ones: the unreaped dead in the caller's
process group. -/
def RegisteredAreDoomed (k : Kernel) (o : Observer) : Prop :=
  ∀ pid serial, (o.children pid = some (.forked pid serial) ∧ k.Dead pid serial) ↔
    ∃ c, k.Doomed pid c ∧ c.serial = serial

/-- Of the children in the group, only registered ones die. -/
def OnlyRegisteredDie (o : Observer) (k : Kernel) : KernelLabel → Prop
  | .die pid _ => ∀ c, k.slots pid = .child c → c.inGroup = true →
      o.children pid = some (.forked pid c.serial)
  | _ => True

/-! ## Whom the loop reaps -/

/-- The loop has reaped the child, or will. -/
def LoopTakes (k : Kernel) (pid serial : Nat) : Prop :=
  (serial ∈ k.reaped ∧ k.forks[serial]? = some pid) ∨ ∃ c, k.Doomed pid c ∧ c.serial = serial

/-- It takes registered children only, besides those that had been reaped before. -/
def SparesOthers (k₀ : Kernel) (o₀ : Observer) (k : Kernel) : Prop :=
  ∀ pid serial, LoopTakes k pid serial → serial ∉ k₀.reaped →
    o₀.children pid = some (.forked pid serial)

/-- A reaped child was doomed before. -/
theorem loopTakes_reap_iff (hwf : k.WF) {q : Nat} {d : Child} (hdoomed : k.Doomed q d)
    {pid serial : Nat} : LoopTakes (k.reap q d) pid serial ↔ LoopTakes k pid serial := by
  have hfork := (hwf.slot q d hdoomed.1).1
  constructor
  · rintro (⟨hr, hpid⟩ | ⟨c, ⟨hslot, hdead⟩, hserial⟩)
    · rcases List.mem_cons.mp hr with rfl | hr
      · obtain rfl : pid = q := Option.some.inj (hpid.symm.trans hfork)
        exact .inr ⟨d, hdoomed, rfl⟩
      · exact .inl ⟨hr, hpid⟩
    · rcases Kernel.slots_setSlot_cases hslot with ⟨-, hv⟩ | ⟨-, hold⟩
      · cases hv
      · exact .inr ⟨c, ⟨hold, hdead⟩, hserial⟩
  · rintro (⟨hr, hpid⟩ | ⟨c, ⟨hslot, hdead⟩, rfl⟩)
    · exact .inl ⟨List.mem_cons_of_mem _ hr, hpid⟩
    · by_cases hpq : pid = q
      · subst hpq
        obtain rfl := Slot.child.inj (hdoomed.1.symm.trans hslot)
        exact .inl ⟨List.mem_cons_self, hfork⟩
      · exact .inr ⟨c, ⟨(Kernel.slots_setSlot_of_ne k _ hpq).trans hslot, hdead⟩, rfl⟩

theorem OscStep.loopTakes_iff {pc : OscPc} {l : OscLabel} {pc' : Option OscPc}
    (h : OscStep me k o pc l k' o' pc') (hwf : k.WF) {pid serial : Nat} :
    LoopTakes k' pid serial ↔ LoopTakes k pid serial := by
  have hwait : ∀ {a}, Waitpid k .ownGroup .wnohang a k' →
      (LoopTakes k' pid serial ↔ LoopTakes k pid serial) := by
    intro a hw
    rcases hw.cases_kernel with rfl | ⟨q, d, t, hslot, hsel, hz, -, rfl⟩
    · exact Iff.rfl
    · exact loopTakes_reap_iff hwf ⟨hslot, hsel, t, hz⟩
  cases h with
  | noMoreChildren hw | stray hw | reaped hw => exact hwait hw
  | _ => exact Iff.rfl

theorem loopTakes_iff_of_quiet {l : KernelLabel} (h : KernelStep k l k') (hwf : k.WF)
    (hquiet : Quiet k l) {pid serial : Nat} : LoopTakes k' pid serial ↔ LoopTakes k pid serial := by
  refine or_congr ?_ (exists_congr fun c => and_congr_left fun _ => h.doomed_iff hquiet)
  rw [h.reaped]
  exact and_congr_right fun hr => h.reaped_fork_iff hwf hr

/-- A death in the group adds one child to those the loop takes. -/
theorem loopTakes_of_die {q : Nat} {t : Termination} (h : KernelStep k (.die q t) k')
    (hwf : k.WF) {pid serial : Nat} : LoopTakes k' pid serial ↔ LoopTakes k pid serial ∨ pid = q ∧
      ∃ c, k.slots q = .child c ∧ c.inGroup = true ∧ c.serial = serial := by
  unfold LoopTakes
  rw [h.reaped, or_assoc]
  refine or_congr (and_congr_right fun hr => h.reaped_fork_iff hwf hr) ?_
  constructor
  · rintro ⟨c, hc, hserial⟩
    rcases h.doomed_of_die.mp hc with hold | ⟨hpid, d, hd, hin, rfl⟩
    · exact .inl ⟨c, hold, hserial⟩
    · exact .inr ⟨hpid, d, hd, hin, hserial⟩
  · rintro (⟨c, hold, hserial⟩ | ⟨hpid, d, hd, hin, hserial⟩)
    · exact ⟨c, h.doomed_of_die.mpr (.inl hold), hserial⟩
    · exact ⟨_, h.doomed_of_die.mpr (.inr ⟨hpid, d, hd, hin, rfl⟩), hserial⟩

/-- A well-formed kernel that has come from the first. -/
def Later (k₀ k : Kernel) : Prop := k.WF ∧ ∀ serial ∈ k₀.reaped, serial ∈ k.reaped

theorem later_step {s s' : OscCall} {l : DrainLabel} (h : (deadStaySystem me).step s l s')
    (hs : Later k₀ s.kernel) : Later k₀ s'.kernel := by
  obtain ⟨hwf, hmono⟩ := hs
  obtain ⟨hstep, -⟩ := h
  cases hstep with
  | other hk => exact ⟨hwf.step hk, fun serial hr => hk.reaped ▸ hmono serial hr⟩
  | own hown =>
    obtain ⟨-, hosc⟩ := hown
    cases hosc with
    | noMoreChildren hw | stray hw | reaped hw =>
      exact ⟨hwf.waitpid hw, fun serial hr => hw.reaped (hmono serial hr)⟩
    | _ => exact ⟨hwf, hmono⟩

/-- Only the death of an unregistered child in the group makes the loop take somebody else. -/
theorem sparesOthers_step {s s' : OscCall} {l : DrainLabel}
    (h : (deadStaySystem me).step s l s') (hs : Later k₀ s.kernel) :
    SparesOthers k₀ o₀ s'.kernel ↔
      SparesOthers k₀ o₀ s.kernel ∧ Meanwhile (OnlyRegisteredDie o₀) s l := by
  obtain ⟨hwf, hmono⟩ := hs
  obtain ⟨hstep, hstay⟩ := h
  -- all but deaths leave as it is whom the loop takes
  have hsame : (∀ pid serial, LoopTakes s'.kernel pid serial ↔ LoopTakes s.kernel pid serial) →
      (SparesOthers k₀ o₀ s'.kernel ↔ SparesOthers k₀ o₀ s.kernel) := by
    intro htakes
    unfold SparesOthers
    simp only [htakes]
  cases hstep with
  | own hown =>
    obtain ⟨-, hosc⟩ := hown
    rw [hsame fun pid serial => hosc.loopTakes_iff hwf]
    exact (and_iff_left trivial).symm
  | @other l k' hk =>
    by_cases hdie : ∃ q t, l = .die q t
    · obtain ⟨q, t, rfl⟩ := hdie
      constructor
      · refine fun hspares => ⟨fun pid serial ht hnew => ?_, fun c hslot hin => ?_⟩
        · exact hspares pid serial ((loopTakes_of_die hk hwf).mpr (.inl ht)) hnew
        · -- the dying child has not been reaped, so neither had it been at the call
          have htakes : LoopTakes k' q c.serial :=
            (loopTakes_of_die hk hwf).mpr (.inr ⟨rfl, c, hslot, hin, rfl⟩)
          exact hspares q c.serial htakes fun hr => (hwf.slot q c hslot).2 (hmono _ hr)
      · rintro ⟨hspares, hdie⟩ pid serial ht hnew
        rcases (loopTakes_of_die hk hwf).mp ht with hold | ⟨rfl, c, hslot, hin, rfl⟩
        · exact hspares pid serial hold hnew
        · exact hdie c hslot hin
    · have hquiet : Quiet s.kernel l :=
        DeadStay.quiet hstay fun q t hl => hdie ⟨q, t, hl⟩
      rw [hsame fun pid serial => loopTakes_iff_of_quiet hk hwf hquiet]
      refine (and_iff_left ?_).symm
      cases l with
      | die q t => exact absurd ⟨q, t, rfl⟩ hdie
      | _ => trivial

/-- A call spares the others if and only if it would have at the call and none of them dies in
the group meanwhile. -/
theorem sparesOthers_run {s : OscCall} {ls : List DrainLabel} {l : OscLabel} (hwf : k.WF)
    (hrun : (deadStaySystem me).Run ⟨k, o, some .wait⟩ ls s)
    (hlast : OscCallStep me s l ⟨k', o', none⟩) :
    SparesOthers k o k' ↔ SparesOthers k o k ∧
      ((deadStaySystem me).restrict (Meanwhile (OnlyRegisteredDie o))).Run
        ⟨k, o, some .wait⟩ ls s := by
  have hlater : Later k k := ⟨hwf, fun _ hr => hr⟩
  have hwf' : s.kernel.WF :=
    (hrun.invariant (P := fun t => Later k t.kernel) (fun _ _ _ => later_step) hlater).1
  obtain ⟨-, hosc⟩ := hlast
  have hsame : SparesOthers k o k' ↔ SparesOthers k o s.kernel := by
    unfold SparesOthers
    simp only [hosc.loopTakes_iff hwf']
  rw [hsame]
  exact hrun.good_iff_start_restrict (Q := fun t => Later k t.kernel) (fun _ _ _ => later_step)
    (fun _ _ _ => sparesOthers_step) hlater

/-! ## When it does -/

theorem sparesOthers_self_iff (hwf : k.WF) :
    SparesOthers k o k ↔
      ∀ pid c, k.Doomed pid c → o.children pid = some (.forked pid c.serial) := by
  constructor
  · intro h pid c hc
    exact h pid c.serial (.inr ⟨c, hc, rfl⟩) (hwf.slot pid c hc.1).2
  · rintro h pid serial (⟨hr, -⟩ | ⟨c, hc, rfl⟩) hnew
    · exact absurd hr hnew
    · exact h pid c hc

/-- When nobody is left to reap, sparing the others is what the header promises of them. -/
theorem sparesOthers_iff_unregistered (hwf : k'.WF) (hnone : ∀ pid c, ¬ k'.Doomed pid c) :
    SparesOthers k o k' ↔ ∀ pid serial, k'.forks[serial]? = some pid → serial ∉ k.reaped →
      o.children pid ≠ some (.forked pid serial) →
        serial ∉ k'.reaped ∧ k'.Waitable pid serial := by
  constructor
  · intro h pid serial hfork hnew hmap
    have hr : serial ∉ k'.reaped := fun hr => hmap (h pid serial (.inl ⟨hr, hfork⟩) hnew)
    exact ⟨hr, hwf.waitable hfork hr⟩
  · rintro h pid serial (⟨hr, hfork⟩ | ⟨c, hc, -⟩) hnew
    · by_contra hmap
      exact (h pid serial hfork hnew hmap).1 hr
    · exact absurd hc (hnone pid c)

/-- The doomed have been reaped by the time nobody is left. -/
theorem KernelSwept.reaped_of_doomed (h : KernelSwept k done k')
    (hnone : ∀ pid c, ¬ k'.Doomed pid c) {pid : Nat} {c : Child} (hc : k.Doomed pid c) :
    c.serial ∈ k'.reaped := by
  obtain ⟨hslot, hin, t, hz⟩ := hc
  rcases h.dead pid c t hslot hz with hsame | ⟨-, hr⟩
  · exact absurd ⟨hsame, hin, t, hz⟩ (hnone pid c)
  · exact hr

theorem RegisteredAreDoomed.registered (hcond : RegisteredAreDoomed k o) (hwf : k.WF)
    (hk : KernelSwept k done k') (ho : ObserverSwept o done done o')
    (hnone : ∀ pid c, ¬ k'.Doomed pid c) {pid serial : Nat}
    (hmap : o.children pid = some (.forked pid serial)) (hdead : k.Dead pid serial) :
    serial ∈ k'.reaped ∧ o'.children pid = none ∧
      ∃ news, o'.died = o.died ++ news ∧ .forked pid serial ∈ news := by
  obtain ⟨c, hc, rfl⟩ := (hcond pid serial).mp ⟨hmap, hdead⟩
  obtain ⟨hfork, hnew⟩ := hwf.slot pid c hc.1
  have hr := hk.reaped_of_doomed hnone hc
  have hdone : pid ∈ done := (hk.since pid).mpr ⟨c.serial, hr, hnew, hk.forks _ pid hfork⟩
  obtain ⟨news, hdied, htold⟩ := ho.died
  exact ⟨hr, ho.erased pid hdone, news, hdied, htold pid hdone _ hmap⟩

/-- A registered dead child whose entry is gone was reaped by the loop, if this took registered
children only. -/
theorem ReapsExactly.registeredAreDoomed (h : ReapsExactly k o k' o') (hwf : k.WF)
    (hk : KernelSwept k done k') (ho : ObserverSwept o done done o')
    (hspares : SparesOthers k o k') (hstart : SparesOthers k o k) : RegisteredAreDoomed k o := by
  intro pid serial
  constructor
  · rintro ⟨hmap, hdead⟩
    obtain ⟨hr, herased, -⟩ := h.registered pid serial hmap hdead
    have hdone : pid ∈ done := by
      by_contra hnot
      rw [ho.kept pid hnot, hmap] at herased
      cases herased
    obtain ⟨serial', hr', hnew, hfork⟩ := (hk.since pid).mp hdone
    -- whoever was reaped under this pid was registered under it, and that is this child
    have hsame := hspares pid serial' (.inl ⟨hr', hfork⟩) hnew
    rw [hmap] at hsame
    cases hsame
    rcases hdead with ⟨c, t, hslot, rfl, hz⟩ | hbefore
    · refine ⟨c, ⟨hslot, ?_, t, hz⟩, rfl⟩
      rcases hk.dead pid c t hslot hz with hleft | ⟨hin, -⟩
      · exact absurd hr (hk.wf.slot pid c hleft).2
      · exact hin
    · exact absurd hbefore hnew
  · rintro ⟨c, hc, rfl⟩
    obtain ⟨hslot, hin, t, hz⟩ := hc
    exact ⟨(sparesOthers_self_iff hwf).mp hstart pid c ⟨hslot, hin, t, hz⟩,
      .inl ⟨c, t, hslot, rfl, hz⟩⟩

/-! ## The call returns -/

/-- The children that have not been reaped. -/
def unreaped (k : Kernel) : Finset ℕ := Finset.range k.forks.length \ k.reaped.toFinset

theorem unreaped_reap_lt (hwf : k.WF) {pid : Nat} {c : Child} (hslot : k.slots pid = .child c) :
    (unreaped (k.reap pid c)).card < (unreaped k).card := by
  obtain ⟨hfork, hr⟩ := hwf.slot pid c hslot
  have hlt : c.serial < k.forks.length := (List.getElem?_eq_some_iff.mp hfork).1
  have herase : unreaped (k.reap pid c) = (unreaped k).erase c.serial := by
    show Finset.range k.forks.length \ (c.serial :: k.reaped).toFinset = _
    rw [List.toFinset_cons, Finset.sdiff_insert]
    rfl
  rw [herase]
  refine Finset.card_erase_lt_of_mem (Finset.mem_sdiff.mpr ⟨Finset.mem_range.mpr hlt, ?_⟩)
  rwa [List.mem_toFinset]

/-- A call that has come back to the `waitpid` goes on as one that begins there. -/
theorem OscReturns.prepend {T : LTS OscCall DrainLabel} {ls ms : List DrainLabel}
    (h : T.Run ⟨k₀, o₀, some .wait⟩ ls ⟨k, o, some .wait⟩)
    (hreturns : OscReturns T me k o ms k' o') : OscReturns T me k₀ o₀ (ls ++ ms) k' o' := by
  obtain ⟨s, l, hrun, hlast⟩ := hreturns
  exact ⟨s, l, h.append hrun, hlast⟩

/-- With the mutex free, the call can return: every round reaps one more child. -/
theorem on_sig_child_returns (me : Nat) {n : Nat} (hn : (unreaped k).card = n) (hwf : k.WF)
    (hfree : o.guard = none) : ∃ ls k' o', OscReturns (deadStaySystem me) me k o ls k' o' := by
  -- on the number of children that have not been reaped
  induction n using Nat.strong_induction_on generalizing k o with
  | _ n ih =>
    have own : ∀ {s l s'}, OscCallStep me s l s' → (deadStaySystem me).step s (.own l) s' :=
      fun h => ⟨.own h, trivial⟩
    rcases k.doomed_or_none with ⟨pid, c, hslot, hin, t, hz⟩ | ⟨a, ha, hnobody⟩
    · have hlt : (unreaped (k.reap pid c)).card < n := hn ▸ unreaped_reap_lt hwf hslot
      have hwait : Waitpid k .ownGroup .wnohang (.changed pid (.terminated t)) (k.reap pid c) :=
        .reap hslot hin hz
      cases hmap : o.children pid with
      | none =>
        obtain ⟨ls, k', o', hrun⟩ := ih _ hlt rfl (hwf.reap hslot)
          (o := { { o with guard := some (.onSigChild me) } with guard := none }) rfl
        exact ⟨_, k', o', hrun.prepend (.cons (own ⟨rfl, .reaped hwait⟩)
          (.cons (own ⟨rfl, .lock hfree⟩) (.cons (own ⟨rfl, .notFound hmap⟩)
          (.cons (own ⟨rfl, .unlock⟩) (.nil _)))))⟩
      | some d =>
        obtain ⟨ls, k', o', hrun⟩ := ih _ hlt rfl (hwf.reap hslot) (o :=
          { (({ o with guard := some (.onSigChild me) } : Observer).emit d).erase pid with
            guard := none }) rfl
        exact ⟨_, k', o', hrun.prepend (.cons (own ⟨rfl, .reaped hwait⟩)
          (.cons (own ⟨rfl, .lock hfree⟩) (.cons (own ⟨rfl, .found hmap⟩)
          (.cons (own ⟨rfl, .emit t.wifsignaled_or_wifexited⟩) (.cons (own ⟨rfl, .erase⟩)
          (.cons (own ⟨rfl, .unlock⟩) (.nil _)))))))⟩
    · -- nobody is left to reap
      exact ⟨[], k, o, _, _, .nil _, rfl, .noMoreChildren hnobody ha⟩

/-- **When `on_sig_child` reaps exactly the registered dead.** The kernel goes on while the
call runs, only that no dead child is moved to another process group, and nobody else in the
caller is inside the observer or waits for a child. With the mutex free the call can return,
and whenever it returns, it has reaped, announced and erased those that were registered and
dead at the call and left everybody else to be waited for if and only if the registered dead
were the unreaped dead children in the caller's process group and only registered children
died in the group meanwhile. -/
theorem on_sig_child_exact_iff (me : Nat) (k : Kernel) (o : Observer) (hwf : k.WF) :
    (o.guard = none → ∃ ls k' o', OscReturns (deadStaySystem me) me k o ls k' o') ∧
    ∀ ls k' o', OscReturns (deadStaySystem me) me k o ls k' o' →
      (ReapsExactly k o k' o' ↔ RegisteredAreDoomed k o ∧
        OscReturns ((deadStaySystem me).restrict (Meanwhile (OnlyRegisteredDie o))) me
          k o ls k' o') := by
  refine ⟨on_sig_child_returns me rfl hwf, fun ls k' o' hreturns => ?_⟩
  obtain ⟨done, hk, ho, hnone⟩ := hreturns.swept hwf
  have hend := sparesOthers_iff_unregistered (k := k) (o := o) hk.wf hnone
  constructor
  · intro h
    have hspares := hend.mpr h.unregistered
    obtain ⟨s, l, hrun, hlast⟩ := hreturns
    obtain ⟨hstart, hrun'⟩ := (sparesOthers_run hwf hrun hlast).mp hspares
    exact ⟨h.registeredAreDoomed hwf hk ho hspares hstart, s, l, hrun', hlast⟩
  · rintro ⟨hcond, s, l, hrun, hlast⟩
    have hstart : SparesOthers k o k :=
      (sparesOthers_self_iff hwf).mpr fun pid c hc => ((hcond pid c.serial).mpr ⟨c, hc, rfl⟩).1
    have hspares := (sparesOthers_run hwf hrun.of_restrict hlast).mpr ⟨hstart, hrun⟩
    exact ⟨fun pid serial hmap hdead => hcond.registered hwf hk ho hnone hmap hdead,
      hend.mp hspares⟩

/-- A parent whose only child has exited, in the parent's group or in another one. -/
def oneEnded (inGroup : Bool) : Kernel :=
  ⟨fun pid => if pid = 7 then .child ⟨0, inGroup, .zombie (.exited 0)⟩ else .vacant, [7], [], true⟩

/-- The observer has been asked to watch the child. -/
def watching : Observer := Observer.initial.insert (.forked 7 0)

theorem oneEnded_slots {inGroup : Bool} {pid : Nat} {c : Child}
    (h : (oneEnded inGroup).slots pid = .child c) :
    pid = 7 ∧ c = ⟨0, inGroup, .zombie (.exited 0)⟩ := by
  have hslot : (if pid = 7 then Slot.child ⟨0, inGroup, .zombie (.exited 0)⟩ else .vacant) =
      .child c := h
  split at hslot
  · rename_i hpid
    cases hslot
    exact ⟨hpid, rfl⟩
  · cases hslot

theorem oneEnded_wf : (oneEnded true).WF := by
  refine ⟨fun pid c hslot => ?_, fun serial pid hfork => ?_, fun pid hpid => ?_, nofun⟩
  · obtain ⟨rfl, rfl⟩ := oneEnded_slots hslot
    exact ⟨rfl, List.not_mem_nil⟩
  · obtain ⟨hlt, hpid⟩ := List.getElem?_eq_some_iff.mp hfork
    obtain rfl : serial = 0 := Nat.lt_one_iff.mp hlt
    obtain rfl : 7 = pid := hpid
    exact .inr ⟨_, rfl, rfl⟩
  · rw [List.mem_singleton.mp hpid]
    decide

theorem watching_children {pid : Nat} {c : ChildProcess} (h : watching.children pid = some c) :
    pid = 7 ∧ c = .forked 7 0 := by
  rcases Observer.children_insert h with hnew | ⟨-, hold⟩
  · exact hnew
  · cases hold

theorem oneEnded_registeredAreDoomed : RegisteredAreDoomed (oneEnded true) watching := by
  intro pid serial
  constructor
  · rintro ⟨hmap, -⟩
    obtain ⟨rfl, hc⟩ := watching_children hmap
    cases hc
    exact ⟨_, ⟨rfl, rfl, _, rfl⟩, rfl⟩
  · rintro ⟨c, ⟨hslot, -, t, hz⟩, rfl⟩
    obtain ⟨rfl, rfl⟩ := oneEnded_slots hslot
    exact ⟨rfl, .inl ⟨_, t, hslot, rfl, hz⟩⟩

/-- The registered child is reaped, while another one is forked, leaves the group and dies. -/
def reapsTheRegistered : List DrainLabel :=
  [.other (.fork 8), .own (.wait (.changed 7 (.terminated (.exited 0)))), .own .lock, .own .find,
    .other (.regroup 8 false), .own .emit, .own .erase, .other (.die 8 (.exited 1)), .own .unlock]

theorem on_sig_child_exact_iff_watching :
    ∃ k' o', OscReturns (deadStaySystem 0) 0 (oneEnded true) watching reapsTheRegistered k' o' ∧
      ReapsExactly (oneEnded true) watching k' o' := by
  have hrun : ∃ k' o',
      OscReturns ((deadStaySystem 0).restrict (Meanwhile (OnlyRegisteredDie watching))) 0
        (oneEnded true) watching reapsTheRegistered k' o' := by
    refine ⟨_, _, _, _, .cons ⟨⟨.other (.fork (by decide) rfl), trivial⟩, trivial⟩
      (.cons ⟨⟨.own ⟨rfl, .reaped (.reap rfl rfl rfl)⟩, trivial⟩, trivial⟩
      (.cons ⟨⟨.own ⟨rfl, .lock rfl⟩, trivial⟩, trivial⟩
      (.cons ⟨⟨.own ⟨rfl, .found rfl⟩, trivial⟩, trivial⟩
      (.cons ⟨⟨.other (.regroup rfl), ?_⟩, trivial⟩
      (.cons ⟨⟨.own ⟨rfl, .emit (by decide)⟩, trivial⟩, trivial⟩
      (.cons ⟨⟨.own ⟨rfl, .erase⟩, trivial⟩, trivial⟩
      (.cons ⟨⟨.other (.die rfl nofun), trivial⟩, ?_⟩
      (.cons ⟨⟨.own ⟨rfl, .unlock⟩, trivial⟩, trivial⟩ (.nil _))))))))),
      rfl, .noMoreChildren (.noChild ?_) (.inr rfl)⟩
    · rintro c t ⟨⟩ ⟨⟩
    · rintro c ⟨⟩ ⟨⟩
    · -- the new child is outside the group, and the old one is gone
      intro pid c hslot hin
      rcases Kernel.slots_setSlot_cases hslot with ⟨-, hs⟩ | ⟨hne, hs⟩
      · cases hs
        cases hin
      · rcases Kernel.slots_setSlot_cases hs with ⟨hpid, -⟩ | ⟨-, hs⟩
        · exact hne hpid
        · rcases Kernel.slots_setSlot_cases hs with ⟨-, hv⟩ | ⟨hgone, hs⟩
          · cases hv
          · rcases Kernel.slots_setSlot_cases hs with ⟨hpid, -⟩ | ⟨-, hold⟩
            · exact hne hpid
            · exact hgone (oneEnded_slots hold).1
  obtain ⟨k', o', hgood⟩ := hrun
  have hreturns :
      OscReturns (deadStaySystem 0) 0 (oneEnded true) watching reapsTheRegistered k' o' :=
    hgood.imp fun s hs => hs.imp fun l hl => ⟨hl.1.of_restrict, hl.2⟩
  obtain ⟨-, hiff⟩ := on_sig_child_exact_iff 0 (oneEnded true) watching oneEnded_wf
  exact ⟨k', o', hreturns, (hiff _ k' o' hreturns).mpr ⟨oneEnded_registeredAreDoomed, hgood⟩⟩

/-- The call with the child in the group and nobody registered. -/
def reapsUnregistered : List DrainLabel :=
  [.own (.wait (.changed 7 (.terminated (.exited 0)))), .own .lock, .own .find, .own .unlock]

/-- A child nobody registered is reaped, and a `wait_for` on it then throws, whether it was
dead at the call or dies while the call runs; a registered child that has left the process
group stays a zombie and in the map. -/
theorem unregistered_child_reaped :
    (∃ k' o', OscReturns (deadStaySystem 0) 0 (oneEnded true) .initial reapsUnregistered k' o' ∧
      ¬ ReapsExactly (oneEnded true) .initial k' o' ∧
      Waitpid k' (.process 7) Wait.Flags.untraced.options (.failed .echild) k') ∧
    (∃ k' o', RegisteredAreDoomed (Kernel.initOnly.fork 7) .initial ∧
      OscReturns (deadStaySystem 0) 0 (Kernel.initOnly.fork 7) .initial
        (.other (.die 7 (.exited 0)) :: reapsUnregistered) k' o' ∧
      ¬ ReapsExactly (Kernel.initOnly.fork 7) .initial k' o') ∧
    ∃ k' o', OscReturns (deadStaySystem 0) 0 (oneEnded false) watching [] k' o' ∧
      ¬ ReapsExactly (oneEnded false) watching k' o' ∧ o'.children 7 = some (.forked 7 0) := by
  refine ⟨?_, ?_, ?_⟩
  · -- dead at the call
    have hgone : ∀ pid c, ((oneEnded true).reap 7 ⟨0, true, .zombie (.exited 0)⟩).slots pid ≠
        .child c := by
      intro pid c hslot
      rcases Kernel.slots_setSlot_cases hslot with ⟨-, hv⟩ | ⟨hne, hold⟩
      · cases hv
      · exact hne (oneEnded_slots hold).1
    refine ⟨_, _, ⟨_, _, .cons ⟨.own ⟨rfl, .reaped (.reap rfl rfl rfl)⟩, trivial⟩
      (.cons ⟨.own ⟨rfl, .lock rfl⟩, trivial⟩ (.cons ⟨.own ⟨rfl, .notFound rfl⟩, trivial⟩
      (.cons ⟨.own ⟨rfl, .unlock⟩, trivial⟩ (.nil _)))),
      rfl, .noMoreChildren (.noChild ?_) (.inr rfl)⟩, fun h => ?_, .noChild ?_⟩
    · exact fun pid c hslot => absurd hslot (hgone pid c)
    · exact (h.unregistered 7 0 rfl List.not_mem_nil nofun).1 List.mem_cons_self
    · exact fun pid c hslot => absurd hslot (hgone pid c)
  · -- dead only when the call has begun, so the condition on the start holds
    refine ⟨_, _, ?_, ⟨_, _, .cons ⟨.other (.die rfl nofun), trivial⟩
      (.cons ⟨.own ⟨rfl, .reaped (.reap rfl rfl rfl)⟩, trivial⟩
      (.cons ⟨.own ⟨rfl, .lock rfl⟩, trivial⟩ (.cons ⟨.own ⟨rfl, .notFound rfl⟩, trivial⟩
      (.cons ⟨.own ⟨rfl, .unlock⟩, trivial⟩ (.nil _))))),
      rfl, .noMoreChildren (.noChild ?_) (.inr rfl)⟩, fun h => ?_⟩
    · intro pid serial
      constructor
      · rintro ⟨⟨⟩, -⟩
      · rintro ⟨c, ⟨hslot, -, t, hz⟩, -⟩
        rcases Kernel.slots_setSlot_cases hslot with ⟨-, hs⟩ | ⟨-, hold⟩
        · cases hs
          cases hz
        · exact absurd hold (Kernel.initOnly_fresh.slots pid c)
    · intro pid c hslot
      rcases Kernel.slots_setSlot_cases hslot with ⟨-, hv⟩ | ⟨hne, hs⟩
      · cases hv
      · rcases Kernel.slots_setSlot_cases hs with ⟨hpid, -⟩ | ⟨-, hs⟩
        · exact absurd hpid hne
        · rcases Kernel.slots_setSlot_cases hs with ⟨hpid, -⟩ | ⟨-, hold⟩
          · exact absurd hpid hne
          · exact absurd hold (Kernel.initOnly_fresh.slots pid c)
    · exact (h.unregistered 7 0 rfl List.not_mem_nil nofun).1 List.mem_cons_self
  · -- outside the group
    refine ⟨_, _, ⟨_, _, .nil _, rfl, .noMoreChildren (.noChild ?_) (.inr rfl)⟩, fun h => ?_, rfl⟩
    · intro pid c hslot hin
      obtain ⟨-, rfl⟩ := oneEnded_slots hslot
      cases hin
    · obtain ⟨-, herased, -⟩ := h.registered 7 0 rfl (.inl ⟨_, .exited 0, rfl, rfl, rfl⟩)
      cases herased

end ProcessCpp.Core
