import ProcessCpp.Base.Prelude
import ProcessCpp.Core.RunCall

/-!
# "SignalTrap::run can only be run once" (signal.cpp:109–112)

    if (state.load() == State::running)
        throw std::runtime_error("SignalTrap::run can only be run once.");

    state.store(State::running);

The check is an atomic load and the claim of the trap an atomic store, but the two are not
one step. `callersSystem` lets any number of threads call `run` on one trap: two that load
before either has stored are both admitted (`two_threads_inside`), and that is the only
way it can happen (`runs_exclusive_iff`).
-/

namespace ProcessCpp.Core

open ProcessCpp.Base ProcessCpp.Posix

/-! ## Many callers of one trap -/

/-- A trap, and the call each thread has in progress. -/
structure Callers where
  shared : TrapShared
  calls : Nat → Option CallPc

inductive CallersLabel where
  | outside (l : OutsideLabel)
  | run (i : Nat)
  | call (i : Nat) (l : CallLabel)

/-- A step from outside, a thread that calls `run`, or a step of a thread inside it. -/
inductive CallersStep (trap : SignalTrap) (s : Callers) : CallersLabel → Callers → Prop where
  | outside {l shared} (h : OutsideStep trap s.shared l shared) :
      CallersStep trap s (.outside l) { s with shared }
  | run {i} (hidle : s.calls i = none) :
      CallersStep trap s (.run i) { s with calls := Function.update s.calls i (some .load) }
  | call {i pc l shared call} (hpc : s.calls i = some pc)
      (h : CallStep trap s.shared pc l shared call) :
      CallersStep trap s (.call i l) ⟨shared, Function.update s.calls i call⟩

def callersSystem (trap : SignalTrap) : LTS Callers CallersLabel where
  step := CallersStep trap

/-- A new trap that no thread has called yet. -/
def Callers.start : Callers := ⟨.start, fun _ => none⟩

/-! ## One session at a time -/

/-- The call has passed the check and not yet left the loop. It need not be inside the loop, or
have stored `running`: two calls may be past the check without ever being in the loop together. -/
def CallPc.PastCheck : CallPc → Prop
  | .store | .openFd | .loop _ _ => True
  | .load | .closeFd => False

/-- It has also stored `running`. -/
def CallPc.Stored : CallPc → Prop
  | .openFd | .loop _ _ => True
  | .load | .store | .closeFd => False

namespace Callers

/-- At most one thread is past the check, and once it has stored `running` every other
caller throws. -/
structure Exclusive (trap : SignalTrap) (s : Callers) : Prop where
  one : ∀ i j pc pc', s.calls i = some pc → s.calls j = some pc' → pc.PastCheck →
    pc'.PastCheck → i = j
  refused : ∀ i j pc, s.calls i = some pc → pc.Stored → s.calls j = some .load →
    ∀ l shared call, CallStep trap s.shared .load l shared call →
      l = .ends canOnlyBeRunOnce ∧ call = none

/-- No thread loads `state` while another stands between its load and its store. -/
def Separate (s : Callers) : CallersLabel → Prop
  | .call i _ => s.calls i = some .load → ∀ j, s.calls j ≠ some .store
  | _ => True

/-- Whoever is past the check knows what `state` is: nobody else writes it. -/
def Known (s : Callers) : Prop :=
  ∀ i pc, s.calls i = some pc → pc.PastCheck → s.shared.state = (CallPc.expects (some pc)).1

end Callers

section

variable {trap : SignalTrap} {s s' : TrapShared} {pc : CallPc} {l : CallLabel}
  {call : Option CallPc}

/-- The check lets a call pass only when `state` is not `running`; every other call that is
past it was so before. -/
theorem CallStep.pastCheck (h : CallStep trap s pc l s' call) {pc' : CallPc}
    (hcall : call = some pc') (hpast : pc'.PastCheck) :
    pc.PastCheck ∨ (pc = .load ∧ s.state = .notRunning) := by
  cases h with
  | admitted hstate =>
    cases hs : s.state with
    | notRunning => exact .inr ⟨rfl, rfl⟩
    | running => exact absurd hs hstate
  | refused | openFailed | throws | close => cases hcall
  | store | opened | loop | readEvent => exact .inl trivial
  | leave =>
    cases hcall
    exact hpast.elim

/-- Only a call that is past the check writes `state`. -/
theorem CallStep.state_eq (h : CallStep trap s pc l s' call) (hpc : ¬ pc.PastCheck) :
    s'.state = s.state := by
  cases h with
  | admitted | refused | close => rfl
  | store | opened | openFailed | loop | readEvent | throws | leave => exact absurd trivial hpc

/-- A call that is past the check and stays so knows what it has made of `state`. -/
theorem CallStep.known (h : CallStep trap s pc l s' call)
    (hs : pc.PastCheck → s.state = (CallPc.expects (some pc)).1) {pc' : CallPc}
    (hcall : call = some pc') (hpast : pc'.PastCheck) :
    s'.state = (CallPc.expects (some pc')).1 := by
  cases h with
  | admitted hstate =>
    cases hcall
    cases hs : s.state with
    | notRunning => rfl
    | running => exact absurd hs hstate
  | refused | openFailed | throws | close => cases hcall
  | store =>
    cases hcall
    rfl
  | opened =>
    cases hcall
    exact hs trivial
  | loop hne hrun hk =>
    cases hcall
    rw [hk.eq_of_taken]
    exact hs trivial
  | readEvent =>
    cases hcall
    exact hs trivial
  | leave =>
    cases hcall
    exact hpast.elim

end

namespace Callers

variable {trap : SignalTrap} {s s' : Callers} {l : CallersLabel}

theorem Known.refused (h : s.Known) {i : Nat} {pc : CallPc} (hpc : s.calls i = some pc)
    (hstored : pc.Stored) {l : CallLabel} {shared : TrapShared} {call : Option CallPc}
    (hstep : CallStep trap s.shared .load l shared call) :
    l = .ends canOnlyBeRunOnce ∧ call = none := by
  have hrunning : s.shared.state = .running := by
    cases pc with
    | openFd => exact h i _ hpc trivial
    | loop t seen => exact h i _ hpc trivial
    | load | store | closeFd => exact hstored.elim
  cases hstep with
  | admitted hstate => exact absurd hrunning hstate
  | refused => exact ⟨rfl, rfl⟩

theorem Known.step (h : s.Known) (he : s.Exclusive trap) (hstep : CallersStep trap s l s') :
    s'.Known := by
  intro j pc' hj hpast
  cases hstep with
  | outside hout =>
    rw [hout.frame.1]
    exact h j pc' hj hpast
  | run hidle =>
    rcases update_cases hj with ⟨-, hnew⟩ | ⟨-, hold⟩
    · cases hnew
      exact hpast.elim
    · exact h j pc' hold hpast
  | @call i pc l shared call hpc hcall =>
    rcases update_cases hj with ⟨rfl, hnew⟩ | ⟨hji, hold⟩
    · exact hcall.known (h j pc hpc) hnew hpast
    · -- another thread is past the check: this one is not, so it does not write
      have hnot : ¬ pc.PastCheck := fun hp => hji (he.one j i pc' pc hold hpc hpast hp)
      rw [hcall.state_eq hnot]
      exact h j pc' hold hpast

/-- A step made while no other thread stands between load and store keeps the threads
apart. -/
theorem Exclusive.step (he : s.Exclusive trap) (h : s.Known) (hstep : CallersStep trap s l s')
    (hsep : s.Separate l) (i j : Nat) (pc₁ pc₂ : CallPc) (hi : s'.calls i = some pc₁)
    (hj : s'.calls j = some pc₂) (hpi : pc₁.PastCheck) (hpj : pc₂.PastCheck) : i = j := by
  cases hstep with
  | outside hout => exact he.one i j pc₁ pc₂ hi hj hpi hpj
  | @run k hidle =>
    have hne : ∀ m pc, Function.update s.calls k (some .load) m = some pc → pc.PastCheck →
        s.calls m = some pc := by
      intro m pc hm hp
      rcases update_cases hm with ⟨-, hnew⟩ | ⟨-, hold⟩
      · cases hnew
        exact hp.elim
      · exact hold
    exact he.one i j pc₁ pc₂ (hne i pc₁ hi hpi) (hne j pc₂ hj hpj) hpi hpj
  | @call k pc cl shared call hpc hcall =>
    -- no other thread is past the check when `k` passes it
    have halone : ∀ m pc₁ pc₂, m ≠ k → call = some pc₁ → s.calls m = some pc₂ → pc₁.PastCheck →
        pc₂.PastCheck → False := by
      intro m pc₁ pc₂ hmk hk hm hp₁ hp₂
      rcases hcall.pastCheck hk hp₁ with hp | ⟨rfl, hstate⟩
      · exact hmk (he.one m k pc₂ pc hm hpc hp₂ hp)
      · have hknown := h m pc₂ hm hp₂
        rw [hstate] at hknown
        cases pc₂ with
        | store => exact hsep hpc m hm
        | openFd | loop => cases hknown
        | load | closeFd => exact hp₂.elim
    rcases update_cases hi with ⟨hik, hi⟩ | ⟨hik, hi⟩
    · rcases update_cases hj with ⟨hjk, -⟩ | ⟨hjk, hj⟩
      · exact hik.trans hjk.symm
      · exact (halone j pc₁ pc₂ hjk hi hj hpi hpj).elim
    · rcases update_cases hj with ⟨-, hj⟩ | ⟨-, hj⟩
      · exact (halone i pc₂ pc₁ hik hj hi hpj hpi).elim
      · exact he.one i j pc₁ pc₂ hi hj hpi hpj

/-- A load between another thread's load and store lets a second thread past the check. -/
theorem Known.separate_of_exclusive (h : s.Known) (hstep : CallersStep trap s l s')
    (he' : s'.Exclusive trap) : s.Separate l := by
  cases hstep with
  | outside | run => exact trivial
  | @call i pc cl shared call hpc hcall =>
    intro hload j hj
    rw [hload] at hpc
    cases hpc
    have hstate : s.shared.state = .notRunning := h j .store hj trivial
    have hji : j ≠ i := by
      rintro rfl
      cases hload.symm.trans hj
    cases hcall with
    | admitted =>
      have hold : Function.update s.calls i (some .store) j = some .store :=
        (Function.update_of_ne hji ..).trans hj
      exact hji (he'.one j i .store .store hold (Function.update_self ..) trivial trivial)
    | refused hrunning =>
      rw [hstate] at hrunning
      cases hrunning

theorem Known.exclusive_iff (h : s.Known) (he : s.Exclusive trap)
    (hstep : CallersStep trap s l s') : s'.Exclusive trap ↔ s.Separate l := by
  constructor
  · intro he'
    exact h.separate_of_exclusive hstep he'
  · intro hsep
    have hknown := h.step he hstep
    exact ⟨he.step h hstep hsep, fun i j pc hpc hstored _ l shared call hcall =>
      hknown.refused hpc hstored hcall⟩

end Callers

/-- **The check admits one thread at a time exactly when no load falls between another
thread's load and its store**: for any number of threads and every interleaving, in all
states of a run at most one thread is past the check, and every other caller throws once
that one has stored `running`, if and only if no thread loads `state` while another stands
between the two. That one thread is past the check asks for more than that one is inside the
loop, so where the condition fails, the second thread may still fail to get into the loop. -/
theorem runs_exclusive_iff (trap : SignalTrap) (ls : List CallersLabel) (s : Callers) :
    ((callersSystem trap).within (Callers.Exclusive trap)).Run .start ls s ↔
      ((callersSystem trap).restrict Callers.Separate).Run .start ls s := by
  refine LTS.within_iff_restrict (Q := Callers.Known) ?_ ?_ ?_ ?_
  · intro x l y hxy hx he _
    exact hx.step he hxy
  · intro x l y hxy hx he
    exact hx.exclusive_iff he hxy
  · intro i pc hpc
    cases hpc
  · exact ⟨fun i j pc pc' hpc => (nomatch hpc), fun i j pc hpc => (nomatch hpc)⟩

/-- Two threads that both load before either stores. -/
def bothLoad : List CallersLabel :=
  [.run 0, .run 1, .call 0 .load, .call 1 .load, .call 0 .store, .call 1 .store,
    .call 0 .openFd, .call 1 .openFd]

/-- Both of them end up inside the loop. -/
theorem two_threads_inside :
    ∃ s t t' seen seen', (callersSystem chldTrap).Run .start bothLoad s ∧
      s.calls 0 = some (.loop t seen) ∧ s.calls 1 = some (.loop t' seen') ∧
      ¬ s.Exclusive chldTrap := by
  refine ⟨_, .start fun _ => 0, .start fun _ => 0, 0, 0,
    .cons (.run rfl) <| .cons (.run rfl) <| .cons (.call rfl (.admitted (by decide))) <|
    .cons (.call rfl (.admitted (by decide))) <| .cons (.call rfl .store) <|
    .cons (.call rfl .store) <| .cons (.call rfl (@CallStep.opened _ _ fun _ => 0)) <|
    .cons (.call rfl (@CallStep.opened _ _ fun _ => 0)) (.nil _), rfl, rfl, ?_⟩
  intro he
  exact absurd (he.one 0 1 _ _ rfl rfl trivial trivial) (by decide)

end ProcessCpp.Core
