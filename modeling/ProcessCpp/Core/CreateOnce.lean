import Mathlib.Data.Finset.Basic
import ProcessCpp.Base.Prelude
import ProcessCpp.Base.Transition
import ProcessCpp.Core.DeathObserver
import ProcessCpp.Core.SignalTrapRun

/-!
# `create_once_with_signal_trap` (child_process.cpp:151–185)

    if (has_been_created_once.exchange(true))
        throw std::runtime_error { … };

The flag is raised before the constructor runs and lowered again when it throws. The
constructor subscribes to the trap *before* it looks whether the trap has `SIGCHLD`, so a
refused creation has to take its subscription back while it unwinds.

- `has_ctor_iff`: which signals a trap reports, from the list it was built from.
  `sigismember` answers `-1` for a number that is not a signal, and `has` turns that into
  `true` (`has_unknown`).
- `SignalSlots`: what the code relies on of `core::Signal` and `core::ScopedConnection`.
- `createSystem`: any number of calls on any traps, one atomic action at a time, with
  clients that subscribe to the traps meanwhile and owners that destroy observers.
- `created_once`: the observer is unique, a refused creation leaves no trace, and it can be
  tried again.
-/

namespace ProcessCpp.Core

open ProcessCpp.Base ProcessCpp.Posix

/-! ## The signals of a trap -/

/-- `Signal::unknown`. -/
def Signal.unknown : Signal := ⟨0⟩

theorem isSignal_sigChld : isSignal Signal.sigChld.toInt := by decide

/-- The exception of a constructor whose trap does not have `SIGCHLD`. -/
theorem Observer.ctor_eq_error_iff {trap : SignalTrap} :
    (∃ e, Observer.ctor trap = .error e) ↔ trap.has Signal.sigChld = false := by
  unfold Observer.ctor
  by_cases h : trap.has Signal.sigChld = true
  · simp [h]
  · simp [h]

/-- The trap has exactly the signals of its list, as far as `s` goes, and a death observer
is refused exactly when the list lacks `SIGCHLD`. -/
def HasItsSignals (trap : SignalTrap) (signals : List Signal) (s : Signal) : Prop :=
  (trap.has s = true ↔ s ∈ signals ∧ isSignal s.toInt) ∧
    ((∃ e, Observer.ctor trap = .error e) ↔ Signal.sigChld ∉ signals)

/-- `has` tells the truth about a `Signal` exactly when that is a signal. -/
theorem has_ctor_iff (eventfd : Except Errno Nat) (scope : Scope) (signals : List Signal)
    (mask mask' : Mask) (trap : SignalTrap)
    (h : SignalTrap.ctor eventfd scope signals mask = .ok (trap, mask')) (s : Signal) :
    HasItsSignals trap signals s ↔ isSignal s.toInt := by
  have hhas := SignalTrap.has_eq_true_iff (SignalTrap.ctor_eq_ok h)
  have hrefused : (∃ e, Observer.ctor trap = .error e) ↔ Signal.sigChld ∉ signals := by
    rw [Observer.ctor_eq_error_iff, ← Bool.not_eq_true, hhas]
    exact not_congr ⟨fun hmem => hmem isSignal_sigChld, fun hmem _ => hmem⟩
  unfold HasItsSignals
  rw [hhas]
  constructor
  · rintro ⟨htruth, -⟩
    by_contra hs
    exact hs (htruth.mp fun hsig => absurd hsig hs).2
  · intro hs
    exact ⟨⟨fun hmem => ⟨hmem hs, hs⟩, fun hmem _ => hmem.1⟩, hrefused⟩

theorem has_ctor_iff_sigChld :
    HasItsSignals chldTrap [Signal.sigChld] Signal.sigChld ↔ isSignal Signal.sigChld.toInt :=
  has_ctor_iff (.ok 3) .thread [Signal.sigChld] Mask.none _ chldTrap rfl Signal.sigChld

/-- A trap for `SIGCHLD` says that it has `Signal::unknown`. -/
theorem has_unknown :
    (∃ mask, SignalTrap.ctor (.ok 3) .thread [Signal.sigChld] Mask.none = .ok (chldTrap, mask)) ∧
      chldTrap.has Signal.unknown = true ∧
      ¬ HasItsSignals chldTrap [Signal.sigChld] Signal.unknown := by
  have htrue : chldTrap.has Signal.unknown = true := by decide
  refine ⟨⟨_, rfl⟩, htrue, ?_⟩
  rintro ⟨htruth, -⟩
  exact absurd (htruth.mp htrue).2 (by decide)

/-! ## The calls -/

/-- A subscriber of a trap's `signal_raised`: the lambda of the observer that a call
constructs, or somebody else. -/
inductive Subscriber where
  | observer (call : Nat)
  | client (n : Nat)
deriving DecidableEq, Repr

/-- What is relied on of `core::Signal` and `core::ScopedConnection`, which come with
another library: `connect` adds a subscriber, the end of a connection takes this one
away, and neither touches any other. -/
structure SignalSlots (ζ : Type) where
  slots : ζ → Finset Subscriber
  connect : ζ → Subscriber → ζ
  disconnect : ζ → Subscriber → ζ
  slots_connect : ∀ z x, slots (connect z x) = insert x (slots z)
  slots_disconnect : ∀ z x, slots (disconnect z x) = (slots z).erase x

/-- A signal that is nothing but its set of subscribers. -/
def SignalSlots.finset : SignalSlots (Finset Subscriber) where
  slots := id
  connect z x := insert x z
  disconnect z x := z.erase x
  slots_connect _ _ := rfl
  slots_disconnect _ _ := rfl

/-- Where a call stands after its `exchange`. -/
inductive CreatePc where
  /-- the flag was lowered: about to construct, which begins with `connect` -/
  | connect
  /-- in the constructor's body -/
  | check
  /-- the body has thrown, and the member `on_sig_child_connection` is to be destroyed -/
  | unwind (e : Exception)
  /-- in the handler -/
  | store (e : Exception)
  | threw (e : Exception)
  | returned (o : Observer)
  /-- the owner has destroyed the observer that the call had returned -/
  | destroyed

/-- "Cannot create more than one instance." -/
def cannotCreateMore : Exception :=
  .runtimeError
    ("DeathObserver::create_once_with_signal_trap: " ++
      "Cannot create more than one instance.").toList

/-- A call: the trap it was given, and where it stands. -/
structure CreateCall (τ : Type) where
  trap : τ
  pc : CreatePc

/-- The function-local static, the `signal_raised` of every trap, and every call that has
begun. -/
structure Creation (τ ζ : Type) where
  hasBeenCreatedOnce : Bool
  signalRaised : τ → ζ
  calls : Nat → Option (CreateCall τ)

/-- No call has begun; the traps may have subscribers of other kinds. -/
def Creation.start {τ ζ : Type} (signalRaised : τ → ζ) : Creation τ ζ :=
  ⟨false, signalRaised, fun _ => none⟩

inductive CreateLabel (τ : Type) where
  | exchange (call : Nat) (trap : τ)
  | connect (call : Nat) (trap : τ)
  | check (call : Nat)
  | disconnect (call : Nat) (trap : τ)
  | store (call : Nat)
  | destroy (call : Nat) (trap : τ)
  | subscribe (n : Nat) (trap : τ)
  | unsubscribe (n : Nat) (trap : τ)
deriving DecidableEq

section System

variable {τ ζ : Type} [DecidableEq τ] (traps : τ → SignalTrap) (core : SignalSlots ζ)

namespace Creation

variable (s : Creation τ ζ)

/-- The subscribers of a trap's `signal_raised`. -/
def subscribers (t : τ) : Finset Subscriber := core.slots (s.signalRaised t)

/-- A step of one call. -/
def move (i : Nat) (t : τ) (pc : CreatePc) : Creation τ ζ :=
  { s with calls := Function.update s.calls i (some ⟨t, pc⟩) }

/-- `signal_raised().connect` on one trap. -/
def connect (t : τ) (x : Subscriber) : Creation τ ζ :=
  { s with signalRaised :=
      Function.update s.signalRaised t (core.connect (s.signalRaised t) x) }

/-- The end of a connection to one trap. -/
def disconnect (t : τ) (x : Subscriber) : Creation τ ζ :=
  { s with signalRaised :=
      Function.update s.signalRaised t (core.disconnect (s.signalRaised t) x) }

end Creation

/-- `create_once_with_signal_trap`, one atomic action at a time. -/
inductive CreateStep (s : Creation τ ζ) : CreateLabel τ → Creation τ ζ → Prop where
  | won {i t} (hnew : s.calls i = none) (hflag : s.hasBeenCreatedOnce = false) :
      CreateStep s (.exchange i t) { s.move i t .connect with hasBeenCreatedOnce := true }
  | lost {i t} (hnew : s.calls i = none) (hflag : s.hasBeenCreatedOnce = true) :
      CreateStep s (.exchange i t)
        { s.move i t (.threw cannotCreateMore) with hasBeenCreatedOnce := true }
  | connect {i t} (hpc : s.calls i = some ⟨t, .connect⟩) :
      CreateStep s (.connect i t) ((s.connect core t (.observer i)).move i t .check)
  | constructed {i t o} (hpc : s.calls i = some ⟨t, .check⟩)
      (hctor : Observer.ctor (traps t) = .ok o) :
      CreateStep s (.check i) (s.move i t (.returned o))
  | threw {i t e} (hpc : s.calls i = some ⟨t, .check⟩)
      (hctor : Observer.ctor (traps t) = .error e) :
      CreateStep s (.check i) (s.move i t (.unwind e))
  | disconnect {i t e} (hpc : s.calls i = some ⟨t, .unwind e⟩) :
      CreateStep s (.disconnect i t) ((s.disconnect core t (.observer i)).move i t (.store e))
  | store {i t e} (hpc : s.calls i = some ⟨t, .store e⟩) :
      CreateStep s (.store i) { s.move i t (.threw e) with hasBeenCreatedOnce := false }
  | destroy {i t o} (hpc : s.calls i = some ⟨t, .returned o⟩) :
      CreateStep s (.destroy i t)
        ((s.disconnect core t (.observer i)).move i t .destroyed)
  | subscribe {n t} : CreateStep s (.subscribe n t) (s.connect core t (.client n))
  | unsubscribe {n t} : CreateStep s (.unsubscribe n t) (s.disconnect core t (.client n))

def createSystem : LTS (Creation τ ζ) (CreateLabel τ) where
  step := CreateStep traps core

/-! ## What a step does -/

namespace CreateLabel

/-- The call a step belongs to. -/
def call {τ : Type} : CreateLabel τ → Option Nat
  | .exchange i _ | .connect i _ | .check i | .disconnect i _ | .store i | .destroy i _ => some i
  | .subscribe _ _ | .unsubscribe _ _ => none

/-- What a step does to the subscribers of the trap `t`. -/
def onSlots (t : τ) : CreateLabel τ → Finset Subscriber → Finset Subscriber
  | .connect i t', z => if t' = t then insert (.observer i) z else z
  | .disconnect i t', z | .destroy i t', z => if t' = t then z.erase (.observer i) else z
  | .subscribe n t', z => if t' = t then insert (.client n) z else z
  | .unsubscribe n t', z => if t' = t then z.erase (.client n) else z
  | .exchange _ _, z | .check _, z | .store _, z => z

end CreateLabel

namespace CreatePc

/-- Between the `exchange` that found the flag lowered and the `store`, or past the
`return`. -/
def Holds : CreatePc → Prop
  | .threw _ => False
  | .connect | .check | .unwind _ | .store _ | .returned _ | .destroyed => True

def Succeeded : CreatePc → Prop
  | .returned _ | .destroyed => True
  | .connect | .check | .unwind _ | .store _ | .threw _ => False

/-- The lambda is among the subscribers of the call's trap. -/
def Subscribed : CreatePc → Prop
  | .check | .unwind _ | .returned _ => True
  | .connect | .store _ | .threw _ | .destroyed => False

theorem Succeeded.holds {pc : CreatePc} (h : pc.Succeeded) : pc.Holds := by
  cases pc <;> first | exact trivial | exact h.elim

end CreatePc

namespace Creation

variable (s : Creation τ ζ)

/-- Before any call: the traps have only subscribers of other kinds. -/
def Fresh : Prop :=
  s.hasBeenCreatedOnce = false ∧ (∀ i, s.calls i = none) ∧
    ∀ t i, Subscriber.observer i ∉ s.subscribers core t

/-- The call has returned an observer. -/
def Succeeded (i : Nat) : Prop := ∃ c, s.calls i = some c ∧ c.pc.Succeeded

def Holding (i : Nat) : Prop := ∃ c, s.calls i = some c ∧ c.pc.Holds

/-- No call is in progress, and none has succeeded. -/
def Quiet : Prop := ∀ i c, s.calls i = some c → ∃ e, c.pc = .threw e

end Creation

section Steps

variable {traps core} {s s' : Creation τ ζ} {l : CreateLabel τ}

@[simp] theorem subscribers_connect (t t' : τ) (x : Subscriber) :
    (s.connect core t' x).subscribers core t =
      if t' = t then insert x (s.subscribers core t) else s.subscribers core t := by
  unfold Creation.subscribers Creation.connect
  by_cases h : t' = t
  · subst h
    simp [core.slots_connect]
  · simp [h, Function.update_of_ne (Ne.symm h)]

@[simp] theorem subscribers_disconnect (t t' : τ) (x : Subscriber) :
    (s.disconnect core t' x).subscribers core t =
      if t' = t then (s.subscribers core t).erase x else s.subscribers core t := by
  unfold Creation.subscribers Creation.disconnect
  by_cases h : t' = t
  · subst h
    simp [core.slots_disconnect]
  · simp [h, Function.update_of_ne (Ne.symm h)]

omit [DecidableEq τ] in
@[simp] theorem subscribers_move (t t' : τ) (i : Nat) (pc : CreatePc) :
    (s.move i t' pc).subscribers core t = s.subscribers core t := rfl

/-- The subscribers of every trap after a step. -/
theorem CreateStep.subscribers_eq (h : CreateStep traps core s l s') (t : τ) :
    s'.subscribers core t = l.onSlots t (s.subscribers core t) := by
  cases h with
  | won | lost | constructed | threw | store => rfl
  | connect | disconnect | destroy | subscribe | unsubscribe => simp [CreateLabel.onSlots]

/-- A step leaves the calls alone that it does not belong to. -/
theorem CreateStep.calls_of_ne (h : CreateStep traps core s l s') {i : Nat}
    (hl : l.call ≠ some i) : s'.calls i = s.calls i := by
  have hne : ∀ {j : Nat}, some j ≠ some i → i ≠ j := fun hji hij => hji (by rw [hij])
  cases h with
  | won | lost | connect | constructed | threw | disconnect | store | destroy =>
    exact Function.update_of_ne (hne hl) _ _
  | subscribe | unsubscribe => rfl

/-- What a step does to its own call, and to the flag with it. -/
inductive CallMove (flag : Bool) : Option (CreateCall τ) → CreateCall τ → Bool → Prop where
  | won {t} (hflag : flag = false) : CallMove flag none ⟨t, .connect⟩ true
  | lost {t} (hflag : flag = true) : CallMove flag none ⟨t, .threw cannotCreateMore⟩ true
  | inside {c d} (hc : c.pc.Holds) (hd : d.pc.Holds) (hkeep : c.pc.Succeeded → d.pc.Succeeded) :
      CallMove flag (some c) d flag
  | store {t e} : CallMove flag (some ⟨t, .store e⟩) ⟨t, .threw e⟩ false

/-- A step moves one call, or only the subscribers of a trap. -/
theorem CreateStep.call_cases (h : CreateStep traps core s l s') :
    (∃ i c d flag, l.call = some i ∧ s.calls i = c ∧
        s'.calls = Function.update s.calls i (some d) ∧ s'.hasBeenCreatedOnce = flag ∧
        CallMove s.hasBeenCreatedOnce c d flag) ∨
      (s'.calls = s.calls ∧ s'.hasBeenCreatedOnce = s.hasBeenCreatedOnce) := by
  cases h with
  | won hnew hflag => exact .inl ⟨_, _, _, _, rfl, hnew, rfl, rfl, .won hflag⟩
  | lost hnew hflag => exact .inl ⟨_, _, _, _, rfl, hnew, rfl, rfl, .lost hflag⟩
  | connect hpc | constructed hpc | threw hpc | disconnect hpc =>
    exact .inl ⟨_, _, _, _, rfl, hpc, rfl, rfl, .inside trivial trivial False.elim⟩
  | destroy hpc => exact .inl ⟨_, _, _, _, rfl, hpc, rfl, rfl, .inside trivial trivial id⟩
  | store hpc => exact .inl ⟨_, _, _, _, rfl, hpc, rfl, rfl, .store⟩
  | subscribe | unsubscribe => exact .inr ⟨rfl, rfl⟩

/-- `holder` is the one call that holds the flag, if any. -/
def HeldBy (s : Creation τ ζ) (holder : Option Nat) : Prop :=
  s.hasBeenCreatedOnce = holder.isSome ∧ ∀ i, s.Holding i ↔ holder = some i

omit [DecidableEq τ] in
theorem holding_update {i : Nat} {d : CreateCall τ}
    (h : s'.calls = Function.update s.calls i (some d)) (j : Nat) :
    s'.Holding j ↔ if j = i then d.pc.Holds else s.Holding j := by
  unfold Creation.Holding
  rw [h]
  by_cases hji : j = i
  · subst hji
    simp
  · simp [hji]

theorem CreateStep.heldBy (h : CreateStep traps core s l s') {holder : Option Nat}
    (hs : HeldBy s holder) : ∃ holder', HeldBy s' holder' := by
  obtain ⟨hflag, hholds⟩ := hs
  rcases h.call_cases with ⟨i, c, d, flag, -, hc, hcalls, hf, hmove⟩ | ⟨hcalls, hsame⟩
  · have hupd := holding_update hcalls
    cases hmove with
    | won hlow =>
      -- the flag was low, so nobody was holding it
      have hnone : holder = none := by
        cases holder with
        | none => rfl
        | some k => simp [hlow] at hflag
      refine ⟨some i, hf, fun j => ?_⟩
      rw [hupd, hholds, hnone]
      by_cases hji : j = i
      · simp [hji, CreatePc.Holds]
      · simp [hji, Ne.symm hji]
    | lost hhigh =>
      refine ⟨holder, ?_, fun j => ?_⟩
      · rw [hf, ← hflag, hhigh]
      · rw [hupd, hholds]
        by_cases hji : j = i
        · have hnot : ¬ s.Holding i := by
            rintro ⟨b, hci, -⟩
            rw [hc] at hci
            cases hci
          simpa [hji, CreatePc.Holds] using mt (hholds i).mpr hnot
        · simp [hji]
    | inside hcur hnext =>
      refine ⟨holder, by rw [hf, hflag], fun j => ?_⟩
      rw [hupd, hholds]
      by_cases hji : j = i
      · simpa [hji, hnext] using (hholds i).mp ⟨_, hc, hcur⟩
      · simp [hji]
    | store =>
      -- only the holder lowers the flag
      have hi : holder = some i := (hholds i).mp ⟨_, hc, trivial⟩
      refine ⟨none, hf, fun j => ?_⟩
      rw [hupd, hholds, hi]
      by_cases hji : j = i
      · simp [hji, CreatePc.Holds]
      · simp [hji, Ne.symm hji]
  · refine ⟨holder, by rw [hsame, hflag], fun j => ?_⟩
    rw [← hholds]
    unfold Creation.Holding
    rw [hcalls]

theorem heldBy_run {s₀ : Creation τ ζ} {ls : List (CreateLabel τ)} (h₀ : s₀.Fresh core)
    (h : (createSystem traps core).Run s₀ ls s) : ∃ holder, HeldBy s holder := by
  refine h.invariant (P := fun x => ∃ holder, HeldBy x holder) ?_ ⟨none, h₀.1, fun i => ?_⟩
  · rintro x l y hstep ⟨holder, hx⟩
    exact CreateStep.heldBy hstep hx
  · simp [Creation.Holding, h₀.2.1 i]

/-! ## Uniqueness -/

theorem CreateStep.succeeded (h : CreateStep traps core s l s') {i : Nat} (hi : s.Succeeded i) :
    s'.Succeeded i := by
  obtain ⟨c, hc, hdone⟩ := hi
  rcases h.call_cases with ⟨j, b, d, flag, -, hb, hcalls, -, hmove⟩ | ⟨hcalls, -⟩
  · by_cases hij : i = j
    · subst hij
      cases hc.symm.trans hb
      refine ⟨d, by rw [hcalls, Function.update_self], ?_⟩
      cases hmove with
      | inside _ _ hkeep => exact hkeep hdone
      | store => exact hdone.elim
    · exact ⟨c, by rw [hcalls, Function.update_of_ne hij, hc], hdone⟩
  · exact ⟨c, by rw [hcalls, hc], hdone⟩

omit [DecidableEq τ] in
theorem HeldBy.flag {holder : Option Nat} (h : HeldBy s holder) {i : Nat} (hi : s.Holding i) :
    s.hasBeenCreatedOnce = true := by
  rw [h.1, (h.2 i).mp hi]
  rfl

/-- While the flag is raised, a call that begins throws at once. -/
theorem CreateStep.refused (h : CreateStep traps core s l s') {j : Nat} {c : CreateCall τ}
    (hflag : s.hasBeenCreatedOnce = true) (hnew : s.calls j = none) (hc : s'.calls j = some c) :
    c.pc = .threw cannotCreateMore := by
  rcases h.call_cases with ⟨i, b, d, flag, -, hb, hcalls, -, hmove⟩ | ⟨hcalls, -⟩
  · rw [hcalls] at hc
    rcases update_cases hc with ⟨rfl, hd⟩ | ⟨-, hold⟩
    · cases hd
      cases hnew.symm.trans hb
      cases hmove with
      | won hlow =>
        rw [hflag] at hlow
        cases hlow
      | lost => rfl
    · rw [hnew] at hold
      cases hold
  · rw [hcalls, hnew] at hc
    cases hc

/-- A call that has thrown does nothing any more. -/
theorem CreateStep.threw_stays (h : CreateStep traps core s l s') {j : Nat} {t : τ}
    {e : Exception} (hc : s.calls j = some ⟨t, .threw e⟩) :
    s'.calls j = some ⟨t, .threw e⟩ := by
  rcases h.call_cases with ⟨i, b, d, flag, -, hb, hcalls, -, hmove⟩ | ⟨hcalls, -⟩
  · by_cases hji : j = i
    · subst hji
      cases hc.symm.trans hb
      cases hmove with
      | inside hcur => exact hcur.elim
    · rw [hcalls, Function.update_of_ne hji, hc]
  · rw [hcalls, hc]

theorem later_calls_throw {ls : List (CreateLabel τ)} {i j : Nat} {c : CreateCall τ}
    (hheld : ∃ holder, HeldBy s holder) (hi : s.Succeeded i) (hj : s.calls j = none)
    (h : (createSystem traps core).Run s ls s') (hc : s'.calls j = some c) :
    c.pc = .threw cannotCreateMore := by
  -- the call has not begun, or it has thrown; the flag stays raised because of `i`
  have hinv := h.invariant_of
    (Q := fun x => (∃ holder, HeldBy x holder) ∧ x.Succeeded i)
    (P := fun x => ∀ c, x.calls j = some c → c.pc = .threw cannotCreateMore)
    ?_ ?_ ⟨hheld, hi⟩ ?_
  · exact hinv c hc
  · rintro x l y hstep ⟨⟨holder, hholder⟩, hx⟩
    exact ⟨CreateStep.heldBy hstep hholder, CreateStep.succeeded hstep hx⟩
  · rintro x l y hstep ⟨⟨holder, hholder⟩, d, hd, hdone⟩ hx c hc
    cases hxj : x.calls j with
    | none =>
      exact CreateStep.refused hstep (hholder.flag ⟨d, hd, hdone.holds⟩) hxj hc
    | some b =>
      have hb := hx b hxj
      cases b
      cases hb
      rw [CreateStep.threw_stays hstep hxj] at hc
      cases hc
      rfl
  · intro c hc
    rw [hj] at hc
    cases hc

/-! ## A refused creation leaves no trace -/

/-- The lambda of an observer is only where its call has put it. -/
def OwnSlots (core : SignalSlots ζ) (s : Creation τ ζ) : Prop :=
  ∀ t i, Subscriber.observer i ∈ s.subscribers core t →
    ∃ c, s.calls i = some c ∧ c.trap = t ∧ c.pc.Subscribed

/-- Other calls and clients do not touch the lambda. -/
theorem observer_mem_onSlots {i : Nat} (hl : l.call ≠ some i) (t : τ) (z : Finset Subscriber) :
    Subscriber.observer i ∈ l.onSlots t z ↔ Subscriber.observer i ∈ z := by
  cases l <;> simp only [CreateLabel.call, ne_eq, Option.some.injEq] at hl <;>
    simp only [CreateLabel.onSlots] <;> split <;> simp [Ne.symm hl]

theorem CreateStep.ownSlots (h : CreateStep traps core s l s') (hs : OwnSlots core s) :
    OwnSlots core s' := by
  intro t i hmem
  rw [h.subscribers_eq] at hmem
  -- a step of another call neither connects this observer nor disconnects it
  by_cases hl : l.call = some i
  · cases h with
    | won hnew | lost hnew =>
      cases hl
      obtain ⟨c, hc, -⟩ := hs t _ hmem
      rw [hnew] at hc
      cases hc
    | @connect j t' hpc =>
      cases hl
      by_cases ht : t' = t
      · exact ⟨_, Function.update_self .., ht, trivial⟩
      · simp only [CreateLabel.onSlots, ht, if_false] at hmem
        obtain ⟨c, hc, -, hsub⟩ := hs t _ hmem
        cases hpc.symm.trans hc
        exact hsub.elim
    | constructed hpc | threw hpc =>
      cases hl
      obtain ⟨c, hc, htrap, -⟩ := hs t _ hmem
      cases hpc.symm.trans hc
      exact ⟨_, Function.update_self .., htrap, trivial⟩
    | @disconnect j t' e hpc | @destroy j t' o hpc =>
      cases hl
      by_cases ht : t' = t
      · simp [CreateLabel.onSlots, ht] at hmem
      · simp only [CreateLabel.onSlots, ht, if_false] at hmem
        obtain ⟨c, hc, htrap, -⟩ := hs t _ hmem
        cases hpc.symm.trans hc
        exact absurd htrap ht
    | store hpc =>
      cases hl
      obtain ⟨c, hc, -, hsub⟩ := hs t _ hmem
      cases hpc.symm.trans hc
      exact hsub.elim
    | subscribe | unsubscribe => cases hl
  · rw [observer_mem_onSlots hl] at hmem
    rw [h.calls_of_ne hl]
    exact hs t i hmem

theorem ownSlots_run {ls : List (CreateLabel τ)} (hs : OwnSlots core s)
    (h : (createSystem traps core).Run s ls s') : OwnSlots core s' :=
  h.invariant (P := OwnSlots core) (fun _ _ _ hstep hx => CreateStep.ownSlots hstep hx) hs

/-- Apart from its lambda, a call's own steps change no subscribers. -/
theorem erase_onSlots_own {i : Nat} (hl : l.call = some i) (t : τ) (z : Finset Subscriber) :
    (l.onSlots t z).erase (.observer i) = z.erase (.observer i) := by
  cases l <;> cases hl <;> simp only [CreateLabel.onSlots] <;> split <;> simp

theorem erase_onSlots_other {i : Nat} (hl : l.call ≠ some i) (t : τ) (z : Finset Subscriber) :
    (l.onSlots t z).erase (.observer i) = l.onSlots t (z.erase (.observer i)) := by
  cases l <;> simp only [CreateLabel.call, ne_eq, Option.some.injEq] at hl <;>
    simp only [CreateLabel.onSlots] <;> split <;>
    simp [Finset.erase_insert_of_ne, Finset.erase_right_comm, hl]

/-- The steps that belong to other calls and to clients. -/
def others (i : Nat) (ls : List (CreateLabel τ)) : List (CreateLabel τ) :=
  ls.filter fun l => l.call ≠ some i

/-- What a sequence of steps does to the subscribers of a trap. -/
def slotsAfter (t : τ) (ls : List (CreateLabel τ)) (z : Finset Subscriber) : Finset Subscriber :=
  ls.foldl (fun z l => l.onSlots t z) z

theorem erase_subscribers_run {ls : List (CreateLabel τ)}
    (h : (createSystem traps core).Run s ls s') (i : Nat) (t : τ) :
    (s'.subscribers core t).erase (.observer i) =
      slotsAfter t (others i ls) ((s.subscribers core t).erase (.observer i)) := by
  induction h with
  | nil => rfl
  | @cons s u v l ls hstep hrest ih =>
    rw [ih, CreateStep.subscribers_eq hstep]
    by_cases hl : l.call = some i
    · rw [erase_onSlots_own hl]
      simp [others, hl]
    · rw [erase_onSlots_other hl]
      simp [others, slotsAfter, hl]

omit [DecidableEq τ] in
theorem OwnSlots.erase_eq (hs : OwnSlots core s) {i : Nat}
    (hi : ∀ c, s.calls i = some c → ¬ c.pc.Subscribed) (t : τ) :
    (s.subscribers core t).erase (.observer i) = s.subscribers core t := by
  refine Finset.erase_eq_of_notMem fun hmem => ?_
  obtain ⟨c, hc, -, hsub⟩ := hs t i hmem
  exact hi c hc hsub

theorem failed_call_leaves_subscribers {ls : List (CreateLabel τ)} (hs : OwnSlots core s)
    (h : (createSystem traps core).Run s ls s') {i : Nat} {c : CreateCall τ} {e : Exception}
    (hnew : s.calls i = none) (hc : s'.calls i = some c) (hthrew : c.pc = .threw e) (t : τ) :
    s'.subscribers core t = slotsAfter t (others i ls) (s.subscribers core t) := by
  have hbefore := hs.erase_eq (i := i) (by simp [hnew]) t
  have hafter := (ownSlots_run hs h).erase_eq (i := i)
    (by simp [hc, hthrew, CreatePc.Subscribed]) t
  rw [← hafter, erase_subscribers_run h i t, hbefore]

/-! ## Trying again -/

/-- How far a call with a good trap has come, by the number of its own steps. -/
def Progress (i : Nat) (t : τ) (s : Creation τ ζ) (n : Nat) : Prop :=
  match n with
  | 0 => s.calls i = some ⟨t, .connect⟩
  | 1 => s.calls i = some ⟨t, .check⟩
  | _ + 2 => s.Succeeded i

/-- The number of steps of a call in a sequence. -/
def ownSteps (i : Nat) (ls : List (CreateLabel τ)) : Nat :=
  ls.countP fun l => l.call = some i

omit [DecidableEq τ] in
theorem ctor_of_has {t : τ} (htrap : (traps t).has Signal.sigChld = true) :
    Observer.ctor (traps t) = .ok .initial := by
  unfold Observer.ctor
  rw [if_pos htrap]

theorem CreateStep.of_connect (h : CreateStep traps core s l s') {i : Nat} {t : τ}
    (hl : l.call = some i) (hpc : s.calls i = some ⟨t, .connect⟩) :
    s'.calls i = some ⟨t, .check⟩ := by
  cases h with
  | connect hcur =>
    cases hl
    cases hpc.symm.trans hcur
    exact Function.update_self ..
  | won hcur | lost hcur | constructed hcur | threw hcur | disconnect hcur | store hcur
  | destroy hcur =>
    cases hl
    cases hpc.symm.trans hcur
  | subscribe | unsubscribe => cases hl

/-- The constructor's body does not throw for a trap that has `SIGCHLD`. -/
theorem CreateStep.of_check (h : CreateStep traps core s l s') {i : Nat} {t : τ}
    (htrap : (traps t).has Signal.sigChld = true) (hl : l.call = some i)
    (hpc : s.calls i = some ⟨t, .check⟩) : s'.Succeeded i := by
  cases h with
  | constructed hcur =>
    cases hl
    exact ⟨_, Function.update_self .., trivial⟩
  | threw hcur hctor =>
    cases hl
    cases hpc.symm.trans hcur
    rw [ctor_of_has htrap] at hctor
    cases hctor
  | won hcur | lost hcur | connect hcur | disconnect hcur | store hcur | destroy hcur =>
    cases hl
    cases hpc.symm.trans hcur
  | subscribe | unsubscribe => cases hl

theorem CreateStep.progress (h : CreateStep traps core s l s') {i n : Nat} {t : τ}
    (htrap : (traps t).has Signal.sigChld = true) (hs : Progress i t s n) :
    Progress i t s' (n + if l.call = some i then 1 else 0) := by
  by_cases hl : l.call = some i
  · rw [if_pos hl]
    match n, hs with
    | 0, hpc => exact h.of_connect hl hpc
    | 1, hpc => exact h.of_check htrap hl hpc
    | n + 2, hdone => exact h.succeeded hdone
  · rw [if_neg hl]
    match n, hs with
    | 0, hpc | 1, hpc => exact (h.calls_of_ne hl).trans hpc
    | n + 2, hdone => exact h.succeeded hdone

theorem progress_run {ls : List (CreateLabel τ)} (h : (createSystem traps core).Run s ls s')
    {i : Nat} {t : τ} (htrap : (traps t).has Signal.sigChld = true) {n : Nat}
    (hs : Progress i t s n) : Progress i t s' (n + ownSteps i ls) := by
  induction h generalizing n with
  | nil => exact hs
  | @cons s u v l ls hstep _ ih =>
    have hnext := ih (CreateStep.progress hstep htrap hs)
    have hcount : n + ownSteps i (l :: ls) =
        n + (if l.call = some i then 1 else 0) + ownSteps i ls := by
      simp only [ownSteps, List.countP_cons, decide_eq_true_eq]
      omega
    rw [hcount]
    exact hnext

/-- A call that has not succeeded yet is never stuck. -/
theorem Progress.can_step {i n : Nat} {t : τ} (htrap : (traps t).has Signal.sigChld = true)
    (hs : Progress i t s n) (hn : n < 2) :
    ∃ l s', l.call = some i ∧ CreateStep traps core s l s' := by
  match n, hs with
  | 0, hpc => exact ⟨_, _, rfl, .connect hpc⟩
  | 1, hpc => exact ⟨_, _, rfl, .constructed hpc (ctor_of_has htrap)⟩

omit [DecidableEq τ] in
/-- With no call in progress and no observer, the flag is lowered. -/
theorem HeldBy.flag_of_quiet {holder : Option Nat} (h : HeldBy s holder) (hs : s.Quiet) :
    s.hasBeenCreatedOnce = false := by
  cases holder with
  | none => exact h.1
  | some i =>
    obtain ⟨c, hc, hholds⟩ := (h.2 i).mpr rfl
    obtain ⟨e, he⟩ := hs i c hc
    rw [he] at hholds
    exact hholds.elim

/-- Begun in such a state, a call with a trap for `SIGCHLD` succeeds with its second step,
whatever other calls do meanwhile. -/
def Succeeds (traps : τ → SignalTrap) (core : SignalSlots ζ) (s : Creation τ ζ) (i : Nat) (t : τ) :
    Prop :=
  (∃ s₁, (createSystem traps core).step s (.exchange i t) s₁) ∧
    ∀ s₁, (createSystem traps core).step s (.exchange i t) s₁ →
      ∀ ls s₂, (createSystem traps core).Run s₁ ls s₂ →
        (ownSteps i ls < 2 →
          ∃ l s₃, l.call = some i ∧ (createSystem traps core).step s₂ l s₃) ∧
        (2 ≤ ownSteps i ls → s₂.Succeeded i)

theorem succeeds_of_quiet (hheld : ∃ holder, HeldBy s holder) (hs : s.Quiet) {i : Nat}
    (hnew : s.calls i = none) {t : τ} (htrap : (traps t).has Signal.sigChld = true) :
    Succeeds traps core s i t := by
  obtain ⟨holder, hholder⟩ := hheld
  have hflag := hholder.flag_of_quiet hs
  refine ⟨⟨_, .won hnew hflag⟩, ?_⟩
  intro s₁ hstep ls s₂ hrun
  have hfirst : Progress i t s₁ 0 := by
    cases hstep with
    | won => exact Function.update_self ..
    | lost _ hhigh =>
      rw [hflag] at hhigh
      cases hhigh
  have hlast := progress_run hrun htrap hfirst
  rw [Nat.zero_add] at hlast
  constructor
  · intro hn
    exact hlast.can_step htrap hn
  · intro hn
    obtain ⟨k, hk⟩ := Nat.exists_eq_add_of_le' hn
    rw [hk] at hlast
    exact hlast

end Steps

/-- At most one call returns an observer, and later calls throw; a call that throws leaves
the subscribers of every trap as if its own steps had not been; and while nothing is in
progress and there is no observer, a call with a trap for `SIGCHLD` succeeds. -/
theorem created_once (s₀ s : Creation τ ζ) (ls : List (CreateLabel τ)) (h₀ : s₀.Fresh core)
    (h : (createSystem traps core).Run s₀ ls s) :
    (∀ i j, s.Succeeded i → s.Succeeded j → i = j) ∧
    (∀ i j, s.Succeeded i → s.calls j = none → ∀ ls' s', (createSystem traps core).Run s ls' s' →
      ∀ c, s'.calls j = some c → c.pc = .threw cannotCreateMore) ∧
    (∀ i, s.calls i = none → ∀ ls' s', (createSystem traps core).Run s ls' s' →
      ∀ c e, s'.calls i = some c → c.pc = .threw e →
        ∀ t, s'.subscribers core t = slotsAfter t (others i ls') (s.subscribers core t)) ∧
    (s.Quiet → ∀ i t, s.calls i = none → (traps t).has Signal.sigChld = true →
      Succeeds traps core s i t) := by
  have hheld := heldBy_run h₀ h
  have hslots : OwnSlots core s := by
    refine ownSlots_run (fun t i hmem => ?_) h
    exact absurd hmem (h₀.2.2 t i)
  refine ⟨?_, ?_, ?_, ?_⟩
  · rintro i j ⟨c, hc, hci⟩ ⟨d, hd, hdj⟩
    obtain ⟨holder, -, hholder⟩ := hheld
    have hi := (hholder i).mp ⟨c, hc, hci.holds⟩
    have hj := (hholder j).mp ⟨d, hd, hdj.holds⟩
    exact Option.some.inj (hi.symm.trans hj)
  · intro i j hi hj ls' s' hrun c hc
    exact later_calls_throw hheld hi hj hrun hc
  · intro i hnew ls' s' hrun c e hc hthrew t
    exact failed_call_leaves_subscribers hslots hrun hnew hc hthrew t
  · intro hquiet i t hnew htrap
    exact succeeds_of_quiet hheld hquiet hnew htrap

end System

/-- A trap for `SIGCHLD` (`true`) and one for nothing. -/
def twoTraps : Bool → SignalTrap
  | true => chldTrap
  | false => ⟨.thread, 4, Mask.none, SignalTrap.collect []⟩

/-- Call 0 is refused for its trap, call 1 succeeds, call 2 comes too late. -/
def refusedThenCreated : List (CreateLabel Bool) :=
  [.exchange 0 false, .connect 0 false, .check 0, .disconnect 0 false, .store 0,
    .exchange 1 true, .connect 1 true, .check 1, .exchange 2 true]

theorem refusedThenCreated_run :
    ∃ s, (createSystem twoTraps SignalSlots.finset).Run (.start fun _ => ∅) refusedThenCreated s ∧
      s.Succeeded 1 := by
  refine ⟨_, .cons (.won rfl rfl) (.cons (.connect rfl) (.cons (.threw rfl rfl)
    (.cons (.disconnect rfl) (.cons (.store rfl) (.cons (.won rfl rfl) (.cons (.connect rfl)
      (.cons (.constructed rfl (ctor_of_has (by decide)))
        (.cons (.lost rfl rfl) (.nil _))))))))), ?_⟩
  exact ⟨_, rfl, trivial⟩

theorem created_once_after_refusal :
    ∃ s, (createSystem twoTraps SignalSlots.finset).Run (.start fun _ => ∅) refusedThenCreated s ∧
      s.Succeeded 1 ∧ ∀ i, s.Succeeded i → i = 1 := by
  obtain ⟨s, hrun, hdone⟩ := refusedThenCreated_run
  have hfresh : (Creation.start fun _ : Bool => (∅ : Finset Subscriber)).Fresh SignalSlots.finset :=
    ⟨rfl, fun _ => rfl, fun _ _ => Finset.notMem_empty _⟩
  obtain ⟨hone, -⟩ := created_once twoTraps SignalSlots.finset _ s refusedThenCreated hfresh hrun
  exact ⟨s, hrun, hdone, fun i hi => hone i 1 hi hdone⟩

end ProcessCpp.Core
