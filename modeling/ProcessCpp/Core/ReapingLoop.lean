import Mathlib.Data.Finset.Card
import Mathlib.Data.Set.Finite.Basic
import ProcessCpp.Base.Execution
import ProcessCpp.Core.OnSigChild

/-!
# The loop of `on_sig_child` (child_process.cpp:107–138)

    while (true)
    {
        pid = ::waitpid(0, &status, WNOHANG);

The loop leaves when `waitpid` returns `0` or fails with `ECHILD`, and starts the next round
on any other error. While it runs, the rest of the system goes on: children are forked,
stopped and resumed, pids of reaped children are given to others. Only no child dies.

- `drainSystem`: the call, next to everything the kernel does meanwhile that is `Quiet`;
- `LoopAt`: where the loop stands when it has reaped the pids `rs`, in this order. A step of
  the call keeps it and adds the pid it reaped (`LoopAt.own`), a quiet step of the kernel
  leaves it alone (`LoopAt.other`);
- `OscStep.weight`: a round takes at most six steps, so there are not more than that for each
  dead child, one for each stray failure, and the last;
- `on_sig_child_drains`: the call returns, and what it has done by then.
-/

namespace ProcessCpp.Core

open ProcessCpp.Base ProcessCpp.Posix

/-! ## The call and the rest of the system -/

/-- The calls during which the kernel is quiet. -/
def drainSystem (me : Nat) : LTS OscCall DrainLabel :=
  (oscSystem me).restrict (Meanwhile Quiet)

/-- The call has returned. -/
def Returned (s : OscCall) : Prop := s.pc = none

def isOwn : DrainLabel → Bool
  | .own _ => true
  | .other _ => false

/-- A `waitpid` that failed with another error than `ECHILD`. -/
def isStray : DrainLabel → Bool
  | .own (.wait (.failed e)) => e != .echild
  | _ => false

/-- The pid a step of the call has reaped. -/
def reapedBy : OscLabel → List Nat
  | .wait (.changed pid _) => [pid]
  | _ => []

/-- The pids the call has reaped, in the order in which `waitpid` returned them. -/
def reapedPids (ls : List DrainLabel) : List Nat :=
  ls.flatMap fun
    | .own l => reapedBy l
    | .other _ => []

/-! ## How far the loop has come -/

/-- The children under the pids `rs` have been reaped. -/
structure KernelDrained (k₀ : Kernel) (rs : List Nat) (k : Kernel) : Prop where
  nodup : rs.Nodup
  dead : ∀ pid ∈ rs, ∃ c, k₀.Doomed pid c
  left : ∀ pid c, k.Doomed pid c ↔ k₀.Doomed pid c ∧ pid ∉ rs
  reaped : ∀ serial, serial ∈ k.reaped ↔ serial ∈ k₀.reaped ∨
    ∃ pid ∈ rs, ∃ c, k₀.Doomed pid c ∧ c.serial = serial

/-- The entries under the pids `told` have been announced, in this order, and those under
`erased` erased. -/
structure ObserverDrained (o₀ : Observer) (told erased : List Nat) (o : Observer) : Prop where
  died : o.died = o₀.died ++ told.filterMap o₀.children
  children : ∀ pid, o.children pid = if pid ∈ erased then none else o₀.children pid
  inserted : o.inserted = o₀.inserted

variable {me : Nat} {k₀ k k' : Kernel} {o₀ o o' : Observer} {rs told erased : List Nat}

theorem KernelDrained.refl (k : Kernel) : KernelDrained k [] k where
  nodup := List.nodup_nil
  dead _ h := absurd h List.not_mem_nil
  left pid c := by simp
  reaped serial := by simp

theorem ObserverDrained.refl (o : Observer) : ObserverDrained o [] [] o where
  died := by simp
  children _ := by simp
  inserted := rfl

theorem KernelDrained.quiet (h : KernelDrained k₀ rs k) {l : KernelLabel}
    (hstep : KernelStep k l k') (hquiet : Quiet k l) : KernelDrained k₀ rs k' where
  nodup := h.nodup
  dead := h.dead
  left pid c := (hstep.doomed_iff hquiet).trans (h.left pid c)
  reaped serial := by
    rw [hstep.reaped]
    exact h.reaped serial

theorem KernelDrained.reap (h : KernelDrained k₀ rs k) {pid : Nat} {c : Child}
    (hdoomed : k.Doomed pid c) : KernelDrained k₀ (rs ++ [pid]) (k.reap pid c) := by
  obtain ⟨hdead, hnew⟩ := (h.left pid c).mp hdoomed
  refine ⟨?_, fun q hq => ?_, fun q d => ?_, fun serial => ?_⟩
  · rw [List.nodup_append]
    refine ⟨h.nodup, List.nodup_singleton pid, fun a ha b hb => ?_⟩
    rintro rfl
    rw [List.mem_singleton.mp hb] at ha
    exact hnew ha
  · rcases List.mem_append.mp hq with hq | hq
    · exact h.dead q hq
    · rw [List.mem_singleton.mp hq]
      exact ⟨c, hdead⟩
  · by_cases hqp : q = pid
    · subst hqp
      constructor
      · rintro ⟨hslot, -⟩
        rw [show (k.reap q c).slots q = .vacant from Kernel.slots_setSlot_self ..] at hslot
        cases hslot
      · rintro ⟨-, hnot⟩
        simp at hnot
    · have hsame : (k.reap pid c).Doomed q d ↔ k.Doomed q d := by
        unfold Kernel.Doomed
        rw [show (k.reap pid c).slots q = k.slots q from Kernel.slots_setSlot_of_ne k _ hqp]
      rw [hsame, h.left q d]
      simp [hqp]
  · show serial ∈ c.serial :: k.reaped ↔ _
    rw [List.mem_cons, h.reaped serial]
    constructor
    · rintro (rfl | hr | ⟨q, hq, d, hd, hserial⟩)
      · exact .inr ⟨pid, by simp, c, hdead, rfl⟩
      · exact .inl hr
      · exact .inr ⟨q, List.mem_append_left _ hq, d, hd, hserial⟩
    · rintro (hr | ⟨q, hq, d, hd, hserial⟩)
      · exact .inr (.inl hr)
      · rcases List.mem_append.mp hq with hq | hq
        · exact .inr (.inr ⟨q, hq, d, hd, hserial⟩)
        · -- under one pid only one child was dead at the call
          obtain rfl := List.mem_singleton.mp hq
          obtain rfl : d = c := Slot.child.inj (hd.1.symm.trans hdead.1)
          exact .inl hserial.symm

/-- An entry that is still to be erased is the one that was there at the call. -/
theorem ObserverDrained.children_of_notMem (h : ObserverDrained o₀ told erased o) {pid : Nat}
    (hpid : pid ∉ erased) : o.children pid = o₀.children pid := by
  rw [h.children, if_neg hpid]

theorem ObserverDrained.skip (h : ObserverDrained o₀ rs rs o) {pid : Nat}
    (hnone : o₀.children pid = none) : ObserverDrained o₀ (rs ++ [pid]) (rs ++ [pid]) o where
  died := by simp [h.died, hnone]
  children q := by
    rw [h.children q]
    by_cases hqp : q = pid
    · simp [hqp, hnone]
    · simp [hqp]
  inserted := h.inserted

theorem ObserverDrained.emit (h : ObserverDrained o₀ rs rs o) {pid : Nat} {c : ChildProcess}
    (hc : o₀.children pid = some c) : ObserverDrained o₀ (rs ++ [pid]) rs (o.emit c) where
  died := by
    show o.died ++ [c] = _
    simp [h.died, hc]
  children := h.children
  inserted := h.inserted

theorem ObserverDrained.erase {pid : Nat} (h : ObserverDrained o₀ told rs o) :
    ObserverDrained o₀ told (rs ++ [pid]) (o.erase pid) where
  died := h.died
  children q := by
    show Function.update o.children pid none q = _
    by_cases hqp : q = pid
    · simp [hqp]
    · rw [Function.update_of_ne hqp, h.children q]
      simp [hqp]
  inserted := h.inserted

theorem ObserverDrained.setGuard (h : ObserverDrained o₀ told erased o) (g : Option Locker) :
    ObserverDrained o₀ told erased { o with guard := g } :=
  ⟨h.died, h.children, h.inserted⟩

/-- Where the loop stands with the pids `rs` reaped. While the last of them is in hand, the
observer is one behind. -/
inductive LoopAt (k₀ : Kernel) (o₀ : Observer) (k : Kernel) (o : Observer) :
    List Nat → Option OscPc → Prop where
  | wait {rs : List Nat} (hk : KernelDrained k₀ rs k) (ho : ObserverDrained o₀ rs rs o)
      (hguard : o.guard = none) : LoopAt k₀ o₀ k o rs (some .wait)
  | reaped {rs : List Nat} {pid t} (hk : KernelDrained k₀ (rs ++ [pid]) k)
      (ho : ObserverDrained o₀ rs rs o) (hguard : o.guard = none) :
      LoopAt k₀ o₀ k o (rs ++ [pid]) (some (.reaped pid (.terminated t)))
  | locked {rs : List Nat} {pid t} (hk : KernelDrained k₀ (rs ++ [pid]) k)
      (ho : ObserverDrained o₀ rs rs o) :
      LoopAt k₀ o₀ k o (rs ++ [pid]) (some (.locked pid (.terminated t)))
  | found {rs : List Nat} {pid t c} (hk : KernelDrained k₀ (rs ++ [pid]) k)
      (ho : ObserverDrained o₀ rs rs o) (hc : o₀.children pid = some c) :
      LoopAt k₀ o₀ k o (rs ++ [pid]) (some (.found pid (.terminated t) c))
  | emitted {rs : List Nat} {pid c} (hk : KernelDrained k₀ (rs ++ [pid]) k)
      (ho : ObserverDrained o₀ (rs ++ [pid]) rs o) :
      LoopAt k₀ o₀ k o (rs ++ [pid]) (some (.emitted pid c))
  | leaving {rs : List Nat} (hk : KernelDrained k₀ rs k) (ho : ObserverDrained o₀ rs rs o) :
      LoopAt k₀ o₀ k o rs (some .leaving)
  | returned {rs : List Nat} (hk : KernelDrained k₀ rs k) (ho : ObserverDrained o₀ rs rs o)
      (hnone : ∀ pid c, ¬ k.Doomed pid c) : LoopAt k₀ o₀ k o rs none

theorem KernelDrained.last_notMem {pid : Nat} (h : KernelDrained k₀ (rs ++ [pid]) k) :
    pid ∉ rs := by
  intro hmem
  exact (List.nodup_append.mp h.nodup).2.2 pid hmem pid (List.mem_singleton_self pid) rfl

/-- A step that reaps nobody. -/
theorem LoopAt.reapsNone {pc : Option OscPc} {l : OscLabel} (h : LoopAt k₀ o₀ k o rs pc)
    (hl : reapedBy l = []) : LoopAt k₀ o₀ k o (rs ++ reapedBy l) pc := by
  rwa [hl, List.append_nil]

/-- A step of the call. -/
theorem LoopAt.own {pc : OscPc} {l : OscLabel} {pc' : Option OscPc}
    (h : LoopAt k₀ o₀ k o rs (some pc)) (hstep : OscStep me k o pc l k' o' pc') :
    LoopAt k₀ o₀ k' o' (rs ++ reapedBy l) pc' := by
  cases h with
  | wait hk ho hguard =>
    cases hstep with
    | noMoreChildren hw ha =>
      obtain ⟨rfl, hnone⟩ := hw.not_doomed ha
      refine (LoopAt.returned hk ho hnone).reapsNone ?_
      rcases ha with rfl | rfl <;> rfl
    | stray hw =>
      cases hw with
      | noChild => exact (LoopAt.wait hk ho hguard).reapsNone rfl
      | failed => exact (LoopAt.wait hk ho hguard).reapsNone rfl
    | reaped hw =>
      cases hw with
      | reap hslot hsel hz => exact .reaped (hk.reap ⟨hslot, hsel, _, hz⟩) ho hguard
      | stopped hopt => cases hopt
      | continued hopt => cases hopt
  | reaped hk ho hguard =>
    cases hstep with
    | lock => exact (LoopAt.locked hk (ho.setGuard _)).reapsNone rfl
  | locked hk ho =>
    -- the entry under the pid in hand is the one that was there at the call
    have hsame := ho.children_of_notMem hk.last_notMem
    cases hstep with
    | found hfind => exact (LoopAt.found hk ho (hsame.symm.trans hfind)).reapsNone rfl
    | notFound hfind =>
      exact (LoopAt.leaving hk (ho.skip (hsame.symm.trans hfind))).reapsNone rfl
  | @found rs pid t c hk ho hc =>
    cases hstep with
    | emit => exact (LoopAt.emitted hk (ho.emit hc)).reapsNone rfl
    | skip hended => exact absurd (t.wifsignaled_or_wifexited.symm.trans hended) (by decide)
  | emitted hk ho =>
    cases hstep with
    | erase => exact (LoopAt.leaving hk ho.erase).reapsNone rfl
  | leaving hk ho =>
    cases hstep with
    | unlock => exact (LoopAt.wait hk (ho.setGuard _) rfl).reapsNone rfl

/-- A quiet step of the kernel. -/
theorem LoopAt.other {pc : Option OscPc} {l : KernelLabel} (h : LoopAt k₀ o₀ k o rs pc)
    (hstep : KernelStep k l k') (hquiet : Quiet k l) : LoopAt k₀ o₀ k' o rs pc := by
  cases h with
  | wait hk ho hguard => exact .wait (hk.quiet hstep hquiet) ho hguard
  | reaped hk ho hguard => exact .reaped (hk.quiet hstep hquiet) ho hguard
  | locked hk ho => exact .locked (hk.quiet hstep hquiet) ho
  | found hk ho hc => exact .found (hk.quiet hstep hquiet) ho hc
  | emitted hk ho => exact .emitted (hk.quiet hstep hquiet) ho
  | leaving hk ho => exact .leaving (hk.quiet hstep hquiet) ho
  | returned hk ho hnone =>
    refine .returned (hk.quiet hstep hquiet) ho fun pid c hc => ?_
    exact hnone pid c ((hstep.doomed_iff hquiet).mp hc)

theorem reapedPids_append (ls ms : List DrainLabel) :
    reapedPids (ls ++ ms) = reapedPids ls ++ reapedPids ms :=
  List.flatMap_append

theorem loopAt_run {ls : List DrainLabel} {s : OscCall} (hfree : o.guard = none)
    (h : (drainSystem me).Run ⟨k, o, some .wait⟩ ls s) :
    LoopAt k o s.kernel s.observer (reapedPids ls) s.pc := by
  refine h.history (P := fun ls t => LoopAt k o t.kernel t.observer (reapedPids ls) t.pc) ?_
    (.wait (.refl k) (.refl o) hfree)
  intro ls t l t' hstep ht
  rw [reapedPids_append]
  obtain ⟨hstep, hquiet⟩ := hstep
  cases hstep with
  | own hown =>
    obtain ⟨hpc, hosc⟩ := hown
    rw [hpc] at ht
    simpa [reapedPids] using ht.own hosc
  | other hk => simpa [reapedPids] using ht.other hk hquiet

/-! ## The loop ends -/

/-- How many steps the round takes at most, the last `waitpid` included. -/
def weight : Option OscPc → Nat
  | some .wait => 1
  | some (.reaped _ _) => 6
  | some (.locked _ _) => 5
  | some (.found _ _ _) => 4
  | some (.emitted _ _) => 3
  | some .leaving => 2
  | none => 0

/-- A step brings the end of the round nearer, unless `waitpid` failed or started a new one. -/
theorem OscStep.weight {pc : OscPc} {l : OscLabel} {pc' : Option OscPc}
    (h : OscStep me k o pc l k' o' pc') :
    weight pc' + 1 ≤ Core.weight (some pc) + 6 * (reapedBy l).length +
      if isStray (.own l) then 1 else 0 := by
  cases h with
  | noMoreChildren => exact Nat.le_add_right_of_le (Nat.le_add_right _ _)
  | stray hw he => simp [Core.weight, reapedBy, isStray, he]
  | reaped => simp [Core.weight, reapedBy, isStray]
  | lock | found | emit | erase | unlock => exact Nat.le_refl _
  | notFound | skip => simp [Core.weight, reapedBy, isStray]

/-- The steps of the call so far. -/
theorem ownSteps_le {ls : List DrainLabel} {s : OscCall}
    (h : (drainSystem me).Run ⟨k, o, some .wait⟩ ls s) :
    ls.countP isOwn + weight s.pc ≤ 6 * (reapedPids ls).length + ls.countP isStray + 1 := by
  refine h.history (P := fun ls t => ls.countP isOwn + weight t.pc ≤
    6 * (reapedPids ls).length + ls.countP isStray + 1) ?_ (by exact Nat.le_refl 1)
  intro ls t l t' hstep ht
  rw [reapedPids_append, List.length_append, List.countP_append, List.countP_append,
    List.countP_singleton, List.countP_singleton]
  obtain ⟨hstep, -⟩ := hstep
  cases hstep with
  | @own l _ hown =>
    obtain ⟨hpc, hosc⟩ := hown
    have hweight := hosc.weight
    rw [hpc] at ht
    have hreaped : reapedPids [.own l] = reapedBy l := List.append_nil _
    rw [hreaped]
    simp only [isOwn, if_true]
    omega
  | @other l _ =>
    have hreaped : reapedPids [.other l] = [] := rfl
    rw [hreaped]
    simp only [isOwn, isStray, Bool.false_eq_true, if_false, List.length_nil]
    omega

theorem LoopAt.kernelDrained {pc : Option OscPc} (h : LoopAt k₀ o₀ k o rs pc) :
    KernelDrained k₀ rs k := by
  cases h <;> assumption

/-- The dead children of the group. -/
def deadPids (k : Kernel) : Set Nat := {pid | ∃ c, k.Doomed pid c}

theorem KernelDrained.length_le (h : KernelDrained k₀ rs k) (hfin : (deadPids k₀).Finite) :
    rs.length ≤ hfin.toFinset.card := by
  rw [← List.toFinset_card_of_nodup h.nodup]
  refine Finset.card_le_card fun pid hpid => ?_
  rw [Set.Finite.mem_toFinset]
  exact h.dead pid (List.mem_toFinset.mp hpid)

/-- Until it has returned, the call can go on: `waitpid` always answers, and nobody else holds
the mutex. -/
theorem LoopAt.can_step (me : Nat) {pc : OscPc} (h : LoopAt k₀ o₀ k o rs (some pc)) :
    ∃ l k' o' pc', OscStep me k o pc l k' o' pc' := by
  cases h with
  | wait hk ho hguard =>
    rcases k.doomed_or_none with ⟨pid, c, hslot, hin, t, hz⟩ | ⟨a, ha, hnobody⟩
    · exact ⟨_, _, _, _, .reaped (.reap hslot hin hz)⟩
    · exact ⟨_, _, _, _, .noMoreChildren hnobody ha⟩
  | reaped hk ho hguard => exact ⟨_, _, _, _, .lock hguard⟩
  | @locked _ pid t hk ho =>
    cases hfind : o.children pid with
    | none => exact ⟨_, _, _, _, .notFound hfind⟩
    | some c => exact ⟨_, _, _, _, .found hfind⟩
  | @found _ pid t c hk ho hc => exact ⟨_, _, _, _, .emit t.wifsignaled_or_wifexited⟩
  | emitted hk ho => exact ⟨_, _, _, _, .erase⟩
  | leaving hk ho => exact ⟨_, _, _, _, .unlock⟩

/-! ## Drained and stopped -/

/-- What a call that reaped the pids `rs`, in this order, has done: it reaped the dead children
of the group and nobody else, announced the entries under their pids once each and in this
order, and erased these entries and no other. -/
structure Drained (k : Kernel) (o : Observer) (rs : List Nat) (k' : Kernel) (o' : Observer) :
    Prop where
  once : rs.Nodup
  all : ∀ pid, pid ∈ rs ↔ ∃ c, k.Doomed pid c
  reaped : ∀ serial, serial ∈ k'.reaped ↔
    serial ∈ k.reaped ∨ ∃ pid c, k.Doomed pid c ∧ c.serial = serial
  died : o'.died = o.died ++ rs.filterMap o.children
  children : ∀ pid, o'.children pid = if pid ∈ rs then none else o.children pid

theorem LoopAt.drained (h : LoopAt k₀ o₀ k o rs none) : Drained k₀ o₀ rs k o := by
  cases h with
  | returned hk ho hnone =>
    have hall : ∀ pid, pid ∈ rs ↔ ∃ c, k₀.Doomed pid c := by
      intro pid
      refine ⟨hk.dead pid, ?_⟩
      rintro ⟨c, hc⟩
      -- one that was left would still be there
      by_contra hnot
      exact hnone pid c ((hk.left pid c).mpr ⟨hc, hnot⟩)
    refine ⟨hk.nodup, hall, fun serial => ?_, ho.died, ho.children⟩
    rw [hk.reaped serial]
    constructor
    · rintro (hr | ⟨pid, -, c, hc⟩)
      · exact .inl hr
      · exact .inr ⟨pid, c, hc⟩
    · rintro (hr | ⟨pid, c, hc⟩)
      · exact .inl hr
      · exact .inr ⟨pid, (hall pid).mpr ⟨c, hc.1⟩, c, hc⟩

/-- The loop drains and stops. -/
structure DrainsAndStops (me : Nat) (k : Kernel) (o : Observer) : Prop where
  /-- it returns, if its thread keeps running and `waitpid` fails for other reasons than
  `ECHILD` only finitely often -/
  ends : ∀ e : (drainSystem me).Execution Returned ⟨k, o, some .wait⟩,
    e.Fair isOwn → e.Finitely isStray → ∃ n, Returned (e.state n)
  /-- until then it can always go on -/
  goesOn : ∀ ls s, (drainSystem me).Run ⟨k, o, some .wait⟩ ls s → ¬ Returned s →
    ∃ l s', OscCallStep me s l s'
  drained : ∀ ls k' o', (drainSystem me).Run ⟨k, o, some .wait⟩ ls ⟨k', o', none⟩ →
    Drained k o (reapedPids ls) k' o'

/-- With finitely many children, none of which dies meanwhile, and the mutex free, the loop
of `on_sig_child` drains and stops. -/
theorem on_sig_child_drains (me : Nat) (k : Kernel) (o : Observer)
    (hfinite : {pid | ∃ c, k.slots pid = .child c}.Finite) (hfree : o.guard = none) :
    DrainsAndStops me k o where
  ends e hfair hstray := by
    have hfin : (deadPids k).Finite :=
      hfinite.subset fun pid hpid => hpid.imp fun c hc => hc.1
    refine e.ends (b := 6 * hfin.toFinset.card + 1) (fun ls t hrun => ?_) hfair hstray
    have hsteps := ownSteps_le hrun
    have hlength := (loopAt_run hfree hrun).kernelDrained.length_le hfin
    omega
  goesOn ls s hrun hgoing := by
    have hat := loopAt_run hfree hrun
    cases hpc : s.pc with
    | none => exact absurd hpc hgoing
    | some pc =>
      rw [hpc] at hat
      obtain ⟨l, k', o', pc', hstep⟩ := hat.can_step me
      exact ⟨l, _, hpc, hstep⟩
  drained ls k' o' hrun := (loopAt_run hfree hrun).drained

/-- A registered child is reaped, and its pid goes to a new one while the loop runs. -/
def drainsOne : List DrainLabel :=
  [.own (.wait (.failed .eintr)), .own (.wait (.changed 7 (.terminated (.exited 0)))), .own .lock,
    .own .find, .own .emit, .other (.fork 7), .own .erase, .own .unlock, .own (.wait .nothing)]

theorem on_sig_child_drains_watching :
    ∃ k' o', (drainSystem 0).Run ⟨oneEnded true, watching, some .wait⟩ drainsOne ⟨k', o', none⟩ ∧
      Drained (oneEnded true) watching [7] k' o' ∧ o'.died = [.forked 7 0] := by
  have hfinite : {pid | ∃ c, (oneEnded true).slots pid = .child c}.Finite := by
    refine (Set.finite_singleton 7).subset fun pid hpid => ?_
    obtain ⟨c, hc⟩ := hpid
    exact (oneEnded_slots hc).1
  obtain ⟨k', o', hrun⟩ : ∃ k' o', (drainSystem 0).Run ⟨oneEnded true, watching, some .wait⟩
      drainsOne ⟨k', o', none⟩ := by
    refine ⟨_, _, .cons ⟨.own ⟨rfl, .stray (.failed (by decide)) (by decide)⟩, trivial⟩
      (.cons ⟨.own ⟨rfl, .reaped (.reap rfl rfl rfl)⟩, trivial⟩
      (.cons ⟨.own ⟨rfl, .lock rfl⟩, trivial⟩ (.cons ⟨.own ⟨rfl, .found rfl⟩, trivial⟩
      (.cons ⟨.own ⟨rfl, .emit (by decide)⟩, trivial⟩
      (.cons ⟨.other (.fork (by decide) rfl), trivial⟩ (.cons ⟨.own ⟨rfl, .erase⟩, trivial⟩
      (.cons ⟨.own ⟨rfl, .unlock⟩, trivial⟩
      (.cons ⟨.own ⟨rfl, .noMoreChildren (.nothing rfl ?_ ?_) (.inl rfl)⟩, trivial⟩
      (.nil _)))))))))⟩
    · exact ⟨7, _, rfl, rfl⟩
    · intro pid c t hslot _ hz
      rcases Kernel.slots_setSlot_cases hslot with ⟨-, hs⟩ | ⟨hne, hs⟩
      · cases hs
        cases hz
      · rcases Kernel.slots_setSlot_cases hs with ⟨-, hv⟩ | ⟨-, hold⟩
        · cases hv
        · exact hne (oneEnded_slots hold).1
  have hdrained : Drained (oneEnded true) watching [7] k' o' :=
    (on_sig_child_drains 0 (oneEnded true) watching hfinite rfl).drained drainsOne k' o' hrun
  exact ⟨k', o', hrun, hdrained, hdrained.died⟩

end ProcessCpp.Core
