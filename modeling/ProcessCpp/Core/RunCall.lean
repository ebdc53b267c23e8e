import Mathlib.Data.Multiset.AddSub
import ProcessCpp.Core.SignalTrapRun

/-!
# Calls of `SignalTrap::run` (signal.cpp:101–185)

`Core/SignalTrapRun.lean` has the loop of one session. Here is the whole call around it,
and what consecutive calls of one trap share:

- the member `state`, loaded and stored by `run`;
- the eventfd, which `stop` adds to and which a session zeroes when it leaves its loop;
- the trapped signals that are pending, which every session takes from;
- the signalfd, opened by each call and closed by the destructor of a local object.

`CallStep` is one step of a call, `sessionSystem` a trap on which `run` is called again
and again, with `stop` and new signals arriving at any point.

Closing the signalfd is tied to the scope of `run`; putting `state` back is a statement
behind the loop. A call that is left by an exception does the first and not the second,
and the trap refuses to run ever after: `calls_usable_iff`.
-/

namespace ProcessCpp.Core

open ProcessCpp.Base ProcessCpp.Posix

/-! ## What the calls share -/

/-- `SignalTrap::State`. -/
inductive SignalTrap.State where
  | notRunning
  | running
deriving DecidableEq, Repr

/-- How a call of `run` ends: it returns, or one of three exceptions leaves it. -/
inductive CallOutcome where
  | returned
  | runtimeError (what : String)
  | systemError (e : Errno)
  | subscriberThrew
deriving DecidableEq

/-- What a call leaves behind when it ends. -/
structure CallEnd where
  outcome : CallOutcome
  state : SignalTrap.State
  signalFds : Nat

/-- A session that left its loop because of the eventfd: how many `stop`s had been
completed when its last `poll` answered, and how many when it read the eventfd. -/
structure StoppedSession where
  seen : Nat
  read : Nat

/-- The trap as its calls see it, and their history. -/
structure TrapShared where
  state : SignalTrap.State
  /-- The counter of the eventfd. -/
  eventCount : Nat
  /-- The trapped signals that are pending. -/
  pending : Multiset ℕ
  /-- The signalfds that are open. -/
  signalFds : Nat
  /-- Every signal that has become pending. -/
  queued : Multiset ℕ
  /-- The records taken from the kernel, in order. -/
  removed : List ℕ
  /-- The emissions of `signal_raised`, in order. -/
  raised : List Signal
  /-- The number of `stop`s completed. -/
  stops : Nat
  stopped : List StoppedSession
  ends : List CallEnd

namespace TrapShared

/-- A trap that has just been constructed. Signals that are pending then may as well become
so before the first call. -/
def start : TrapShared where
  state := .notRunning
  eventCount := 0
  pending := 0
  signalFds := 0
  queued := 0
  removed := []
  raised := []
  stops := 0
  stopped := []
  ends := []

/-- The largest value the counter of an eventfd can have. -/
def maxEventCount : Nat := 2 ^ 64 - 2

/-- `SignalTrap::stop`: the write fails when the counter is full. -/
def stop (s : TrapShared) : Except Errno TrapShared :=
  if s.eventCount + 1 ≤ maxEventCount then
    .ok { s with eventCount := s.eventCount + 1, stops := s.stops + 1 }
  else
    .error .eagain

/-- A trapped signal becomes pending. A standard signal is pending at most once, the
others are queued. -/
def raise (s : TrapShared) (n : ℕ) : TrapShared :=
  if n < 32 ∧ n ∈ s.pending then s
  else { s with pending := n ::ₘ s.pending, queued := n ::ₘ s.queued }

/-- A call ends with this outcome. -/
def callEnds (s : TrapShared) (outcome : CallOutcome) : TrapShared :=
  { s with ends := s.ends ++ [⟨outcome, s.state, s.signalFds⟩] }

/-- The destructor of `scope` inside `run`. -/
def closeFd (s : TrapShared) : TrapShared := { s with signalFds := s.signalFds - 1 }

end TrapShared

/-- What the kernel answers to the system calls of the loop. `poll` waits without a
timeout until one of the descriptors is readable, and a signal handler interrupts it only
when none is. A read of the signalfd takes as many records as there are and as fit. -/
inductive TrapShared.Answers (s : TrapShared) : RunLabel → TrapShared → Prop where
  | ready {signal event} (hsignal : signal = true ↔ s.pending ≠ 0)
      (hevent : event = true ↔ 0 < s.eventCount) (hany : signal = true ∨ event = true) :
      Answers s (.poll (.ready signal event)) s
  | interrupted (hidle : s.pending = 0 ∧ s.eventCount = 0) :
      Answers s (.poll (.error .eintr)) s
  | pollFailed {e} (he : e ≠ Errno.eintr) : Answers s (.poll (.error e)) s
  | records {signos : List ℕ} {fits rest} (hpending : s.pending = ↑signos + rest)
      (hmost : signos.length = min signalInfoBufferSize s.pending.card) :
      Answers s (.read (.records signos fits))
        { s with pending := rest, removed := s.removed ++ signos }
  | readFailed {e} : Answers s (.read (.failed e)) s
  | tau : Answers s .tau s

/-! ## A call of `run` -/

/-- Where a call stands. -/
inductive CallPc where
  /-- Before the load of `state`. -/
  | load
  /-- The check has passed, `state` has not been stored yet. -/
  | store
  /-- Before `signalfd(2)`. -/
  | openFd
  /-- Inside the loop. `seen` is the number of `stop`s completed when `poll` last answered. -/
  | loop (t : RunState) (seen : Nat)
  /-- `state` has been put back, the signalfd is still open. -/
  | closeFd

inductive CallLabel where
  | load
  | store
  | openFd
  | loop (l : RunLabel)
  | readEvent
  | leave
  | ends (outcome : CallOutcome)

/-- The exception of a call that finds the trap running. -/
def canOnlyBeRunOnce : CallOutcome := .runtimeError "SignalTrap::run can only be run once."

/-- The number of completed `stop`s a loop has seen, after the answer `l`. -/
def seenAfter (s : TrapShared) (seen : Nat) : RunLabel → Nat
  | .poll _ => s.stops
  | _ => seen

/-- One step of a call. `stop` may be called inside the emission of `iterate` too: that is
a step from outside right behind it. -/
inductive CallStep (trap : SignalTrap) (s : TrapShared) :
    CallPc → CallLabel → TrapShared → Option CallPc → Prop where
  | admitted (hstate : s.state ≠ .running) : CallStep trap s .load .load s (some .store)
  | refused (hstate : s.state = .running) :
      CallStep trap s .load (.ends canOnlyBeRunOnce) (s.callEnds canOnlyBeRunOnce) none
  | store : CallStep trap s .store .store { s with state := .running } (some .openFd)
  | opened {info} :
      CallStep trap s .openFd .openFd { s with signalFds := s.signalFds + 1 }
        (some (.loop (.start info) 0))
  | openFailed {e} :
      CallStep trap s .openFd (.ends (.systemError e)) (s.callEnds (.systemError e)) none
  | loop {t t' seen l s'} (hpc : t.pc ≠ .checkEvent true) (hrun : RunStep trap t l t')
      (hk : s.Answers l s') :
      CallStep trap s (.loop t seen) (.loop l) { s' with raised := s'.raised ++ newlyRaised t t' }
        (some (.loop t' (seenAfter s seen l)))
  | readEvent {t seen} (hpc : t.pc = .checkEvent true) :
      -- the answer of the read is ignored: the loop is left in any case
      CallStep trap s (.loop t seen) .readEvent
        { s with eventCount := 0, stopped := s.stopped ++ [⟨seen, s.stops⟩] }
        (some (.loop { t with pc := .left } seen))
  | throws {t seen d l event l'} (hpc : t.pc = .dispatch d l event)
      (hl : loopStep trap d l = some l') (hemits : iterEmits trap d l.i ≠ []) :
      CallStep trap s (.loop t seen) (.ends .subscriberThrew)
        (TrapShared.callEnds
          { s.closeFd with raised := s.raised ++ iterEmits trap d l.i } .subscriberThrew) none
  | leave {t seen} (hpc : t.pc = .left) :
      CallStep trap s (.loop t seen) .leave { s with state := .notRunning } (some .closeFd)
  | close : CallStep trap s .closeFd (.ends .returned) (s.closeFd.callEnds .returned) none

/-! ## One call after the other -/

/-- What happens to a trap from outside `run`. -/
inductive OutsideLabel where
  | stop
  | raise (n : ℕ)

/-- `stop`, called by any thread or by a subscriber, which may throw; and a signal that is
trapped and that the kernel can keep pending. -/
inductive OutsideStep (trap : SignalTrap) (s : TrapShared) : OutsideLabel → TrapShared → Prop where
  | stop {s'} (h : s.stop = .ok s') : OutsideStep trap s .stop s'
  | stopThrows {e} (h : s.stop = .error e) : OutsideStep trap s .stop s
  | raise {n} (hmem : n ∈ trap.blockedSignalsMask) (hmask : n ∉ unmaskable) :
      OutsideStep trap s (.raise n) (s.raise n)

/-- A trap, and the call of `run` that is going on. -/
structure Sessions where
  shared : TrapShared
  call : Option CallPc

inductive SessionLabel where
  | outside (l : OutsideLabel)
  | run
  | call (l : CallLabel)

/-- A step from outside, a new call when none is going on, or a step of the one that is. -/
inductive SessionStep (trap : SignalTrap) (s : Sessions) : SessionLabel → Sessions → Prop where
  | outside {l shared} (h : OutsideStep trap s.shared l shared) :
      SessionStep trap s (.outside l) { s with shared }
  | run (hidle : s.call = none) : SessionStep trap s .run { s with call := some .load }
  | call {pc l shared call} (hpc : s.call = some pc) (h : CallStep trap s.shared pc l shared call) :
      SessionStep trap s (.call l) ⟨shared, call⟩

def sessionSystem (trap : SignalTrap) : LTS Sessions SessionLabel where
  step := SessionStep trap

/-- A new trap, before its first call. -/
def Sessions.start : Sessions := ⟨.start, none⟩

/-! ## What a step leaves alone -/

theorem TrapShared.stop_eq_ok {s s' : TrapShared} (h : s.stop = .ok s') :
    s' = { s with eventCount := s.eventCount + 1, stops := s.stops + 1 } := by
  unfold TrapShared.stop at h
  split at h
  · exact (Except.ok.inj h).symm
  · cases h

/-- A signal that arrives is pending afterwards, and is counted once if it was not yet. -/
theorem TrapShared.raise_cases (s : TrapShared) (n : ℕ) :
    s.raise n = s ∨
      s.raise n = { s with pending := n ::ₘ s.pending, queued := n ::ₘ s.queued } := by
  unfold TrapShared.raise
  split
  · exact .inl rfl
  · exact .inr rfl

/-- All that can happen to a trap from outside. -/
theorem OutsideStep.cases {trap : SignalTrap} {s s' : TrapShared} {l : OutsideLabel}
    (h : OutsideStep trap s l s') :
    s' = s ∨ s' = { s with eventCount := s.eventCount + 1, stops := s.stops + 1 } ∨
      ∃ n ∈ trap.blockedSignalsMask,
        s' = { s with pending := n ::ₘ s.pending, queued := n ::ₘ s.queued } := by
  cases h with
  | stop h => exact .inr (.inl (TrapShared.stop_eq_ok h))
  | stopThrows => exact .inl rfl
  | @raise n hmem =>
    rcases s.raise_cases n with h | h
    · exact .inl h
    · exact .inr (.inr ⟨n, hmem, h⟩)

/-- What the kernel answers changes nothing but what is pending. -/
theorem TrapShared.Answers.eq_of_taken {s s' : TrapShared} {l : RunLabel} (h : s.Answers l s') :
    s' = { s with pending := s'.pending, removed := s'.removed } := by
  cases h <;> rfl

/-! ## Calls that leave the trap usable -/

/-- After the call, the trap can run again. -/
def CallEnd.Usable (e : CallEnd) : Prop := e.state = .notRunning ∧ e.signalFds = 0

/-- Every call so far has left the trap usable. -/
def Sessions.AllUsable (s : Sessions) : Prop := ∀ e ∈ s.shared.ends, e.Usable

/-- No `signalfd(2)` fails, and no subscriber throws. -/
def Unexceptional : SessionLabel → Prop
  | .call (.ends (.systemError _)) => False
  | .call (.ends .subscriberThrew) => False
  | _ => True

/-- `state` and the number of open signalfds at each point of a call, as long as all calls
before it have left the trap usable. -/
def CallPc.expects : Option CallPc → SignalTrap.State × Nat
  | none | some .load | some .store => (.notRunning, 0)
  | some .openFd => (.running, 0)
  | some (.loop _ _) => (.running, 1)
  | some .closeFd => (.notRunning, 1)

def Sessions.AsExpected (s : Sessions) : Prop :=
  (s.shared.state, s.shared.signalFds) = CallPc.expects s.call

section Usable

variable {trap : SignalTrap}

theorem OutsideStep.frame {s s' : TrapShared} {l : OutsideLabel} (h : OutsideStep trap s l s') :
    s'.state = s.state ∧ s'.signalFds = s.signalFds ∧ s'.ends = s.ends := by
  rcases h.cases with rfl | rfl | ⟨n, -, rfl⟩
  · exact ⟨rfl, rfl, rfl⟩
  · exact ⟨rfl, rfl, rfl⟩
  · exact ⟨rfl, rfl, rfl⟩

/-- A step of a call without an exception: what is expected next holds, and if the call
ends, the trap is usable. -/
theorem CallStep.usable {s s' : TrapShared} {pc : CallPc} {l : CallLabel} {call : Option CallPc}
    (h : CallStep trap s pc l s' call) (hpc : (s.state, s.signalFds) = CallPc.expects (some pc))
    (hl : Unexceptional (.call l)) :
    (s'.state, s'.signalFds) = CallPc.expects call ∧
      ∀ e ∈ s'.ends, e ∈ s.ends ∨ e.Usable := by
  obtain ⟨hstate, hfds⟩ := Prod.mk.inj hpc
  cases h with
  | admitted => exact ⟨hpc, fun e he => .inl he⟩
  | refused hrunning =>
    rw [hstate] at hrunning
    cases hrunning
  | store => exact ⟨congrArg _ hfds, fun e he => .inl he⟩
  | opened =>
    refine ⟨?_, fun e he => .inl he⟩
    show (s.state, s.signalFds + 1) = _
    rw [hstate, hfds]
    rfl
  | openFailed => exact hl.elim
  | loop hne hrun hk =>
    rw [hk.eq_of_taken]
    exact ⟨hpc, fun e he => .inl he⟩
  | readEvent => exact ⟨hpc, fun e he => .inl he⟩
  | throws => exact hl.elim
  | leave => exact ⟨congrArg _ hfds, fun e he => .inl he⟩
  | close =>
    have hclosed : s.signalFds - 1 = 0 := by rw [hfds]; rfl
    refine ⟨?_, fun e he => ?_⟩
    · show (s.state, s.signalFds - 1) = _
      rw [hstate, hclosed]
      rfl
    · rcases List.mem_append.mp he with he | he
      · exact .inl he
      · rw [List.mem_singleton.mp he]
        exact .inr ⟨hstate, hclosed⟩

/-- An exception that leaves `run` leaves `state` behind at `running`. -/
theorem CallStep.unusable {s s' : TrapShared} {pc : CallPc} {l : CallLabel} {call : Option CallPc}
    (h : CallStep trap s pc l s' call) (hpc : (s.state, s.signalFds) = CallPc.expects (some pc))
    (hl : ¬ Unexceptional (.call l)) : ∃ e ∈ s'.ends, ¬ e.Usable := by
  have hstate := (Prod.mk.inj hpc).1
  cases h with
  | openFailed =>
    refine ⟨_, List.mem_append_right _ (List.mem_singleton_self _), fun hu => ?_⟩
    have hrunning : SignalTrap.State.running = .notRunning := hstate.symm.trans hu.1
    cases hrunning
  | throws =>
    refine ⟨_, List.mem_append_right _ (List.mem_singleton_self _), fun hu => ?_⟩
    have hrunning : SignalTrap.State.running = .notRunning := hstate.symm.trans hu.1
    cases hrunning
  | _ => exact absurd trivial hl

theorem CallStep.ends_mono {s s' : TrapShared} {pc : CallPc} {l : CallLabel}
    {call : Option CallPc} (h : CallStep trap s pc l s' call) : ∀ e ∈ s.ends, e ∈ s'.ends := by
  intro e he
  cases h with
  | refused | openFailed | throws | close => exact List.mem_append_left _ he
  | loop hne hrun hk =>
    rw [hk.eq_of_taken]
    exact he
  | _ => exact he

/-- A step keeps all calls usable exactly when it is no exception. -/
theorem SessionStep.allUsable_iff {s s' : Sessions} {l : SessionLabel}
    (h : SessionStep trap s l s') (hs : s.AllUsable → s.AsExpected) :
    s'.AllUsable ↔ s.AllUsable ∧ Unexceptional l := by
  cases h with
  | outside h =>
    have hends := h.frame.2.2
    exact ⟨fun hu => ⟨fun e he => hu e (hends.symm ▸ he), trivial⟩,
      fun hu e he => hu.1 e (hends ▸ he)⟩
  | run => exact ⟨fun hu => ⟨hu, trivial⟩, fun hu => hu.1⟩
  | @call pc cl shared call hpc h =>
    have hexp : s.AllUsable → (s.shared.state, s.shared.signalFds) = CallPc.expects (some pc) := by
      intro hu
      exact (hs hu).trans (congrArg _ hpc)
    constructor
    · intro hu
      have hold : s.AllUsable := fun e he => hu e (h.ends_mono e he)
      refine ⟨hold, ?_⟩
      by_contra hl
      obtain ⟨e, he, hbad⟩ := h.unusable (hexp hold) hl
      exact hbad (hu e he)
    · rintro ⟨hold, hl⟩ e he
      rcases (h.usable (hexp hold) hl).2 e he with he | he
      · exact hold e he
      · exact he

theorem SessionStep.asExpected {s s' : Sessions} {l : SessionLabel} (h : SessionStep trap s l s')
    (hs : s.AllUsable → s.AsExpected) (hu : s'.AllUsable) : s'.AsExpected := by
  obtain ⟨hold, hl⟩ := (h.allUsable_iff hs).mp hu
  have hexp := hs hold
  cases h with
  | outside h =>
    obtain ⟨hstate, hfds, -⟩ := h.frame
    show (_, _) = _
    rw [hstate, hfds]
    exact hexp
  | run hidle =>
    refine hexp.trans ?_
    rw [hidle]
    rfl
  | call hpc h => exact (h.usable (hexp.trans (congrArg _ hpc)) hl).1

end Usable

/-- **A call leaves the trap usable exactly when it is not left by an exception**: in
every run of calls, each call that has ended left `state` at `not_running` and no signalfd
open if and only if no `signalfd(2)` failed and no subscriber threw; and then the next
call is admitted. -/
theorem calls_usable_iff (trap : SignalTrap) (ls : List SessionLabel) (s : Sessions)
    (h : (sessionSystem trap).Run .start ls s) :
    (s.AllUsable ↔ ((sessionSystem trap).restrict fun _ l => Unexceptional l).Run .start ls s) ∧
      (s.AllUsable → s.call = none → ∀ l shared call,
        CallStep trap s.shared .load l shared call → l = .load ∧ call = some .store) := by
  have hstart : Sessions.start.AllUsable := fun e he => absurd he List.not_mem_nil
  have hinv : ∀ x l y, SessionStep trap x l y → (x.AllUsable → x.AsExpected) →
      (y.AllUsable → y.AsExpected) := fun x l y hxy hx => hxy.asExpected hx
  have hgood : ∀ x l y, SessionStep trap x l y → (x.AllUsable → x.AsExpected) →
      (y.AllUsable ↔ x.AllUsable ∧ Unexceptional l) := fun x l y hxy hx => hxy.allUsable_iff hx
  refine ⟨h.good_iff_restrict hinv hgood (fun _ => rfl) hstart, ?_⟩
  intro hu hnone l shared call hstep
  have hexp : s.AsExpected := h.invariant hinv (fun _ => rfl) hu
  cases hstep with
  | admitted => exact ⟨rfl, rfl⟩
  | refused hrunning =>
    have hstate : s.shared.state = .notRunning := by
      have hboth := hexp
      rw [Sessions.AsExpected, hnone] at hboth
      exact (Prod.mk.inj hboth).1
    rw [hstate] at hrunning
    cases hrunning

/-- A call that is stopped while nothing is pending, and returns. -/
def stoppedCall : List SessionLabel :=
  [.run, .call .load, .call .store, .call .openFd, .outside .stop,
    .call (.loop (.poll (.ready false true))), .call .readEvent, .call .leave,
    .call (.ends .returned)]

/-- The trap after `stoppedCall`. -/
def afterStoppedCall : Sessions :=
  ⟨{ TrapShared.start with
      stops := 1, stopped := [⟨1, 1⟩], ends := [⟨.returned, .notRunning, 0⟩] }, none⟩

theorem stoppedCall_run (trap : SignalTrap) :
    (sessionSystem trap).Run .start stoppedCall afterStoppedCall :=
  .cons (.run rfl) <| .cons (.call rfl (.admitted (by decide))) <| .cons (.call rfl .store) <|
  .cons (.call rfl (@CallStep.opened _ _ fun _ => 0)) <| .cons (.outside (.stop rfl)) <|
  .cons (.call rfl (.loop nofun (.signalIdle rfl) (.ready (by decide) (by decide) (.inr rfl))))
  <| .cons (.call rfl (.readEvent rfl)) <| .cons (.call rfl (.leave rfl)) <|
  .cons (.call rfl .close) (.nil _)

theorem calls_usable_iff_stoppedCall :
    (afterStoppedCall.AllUsable ↔ ((sessionSystem chldTrap).restrict
        fun _ l => Unexceptional l).Run .start stoppedCall afterStoppedCall) ∧
      (afterStoppedCall.AllUsable → afterStoppedCall.call = none → ∀ l shared call,
        CallStep chldTrap afterStoppedCall.shared .load l shared call →
          l = .load ∧ call = some .store) :=
  calls_usable_iff chldTrap stoppedCall afterStoppedCall (stoppedCall_run chldTrap)

/-- A call whose first record is for `SIGCHLD`, and whose subscriber throws. -/
def thrownCall : List SessionLabel :=
  [.outside (.raise 17), .run, .call .load, .call .store, .call .openFd,
    .call (.loop (.poll (.ready true false))),
    .call (.loop (.read (.records [17] chldRecord_fits))), .call (.ends .subscriberThrew)]

/-- After a subscriber has thrown, the signalfd is closed, but `state` is still `running`
and every further call is refused. -/
theorem thrown_call_unusable :
    ∃ s, (sessionSystem chldTrap).Run .start thrownCall s ∧ s.call = none ∧
      s.shared.ends = [⟨.subscriberThrew, .running, 0⟩] ∧ ¬ s.AllUsable ∧
      ∀ l shared call, CallStep chldTrap s.shared .load l shared call →
        l = .ends canOnlyBeRunOnce ∧ call = none := by
  refine ⟨_, .cons (.outside (.raise (by decide) (by decide))) <| .cons (.run rfl) <|
    .cons (.call rfl (.admitted (by decide))) <| .cons (.call rfl .store) <|
    .cons (.call rfl (@CallStep.opened _ _ fun _ => 0)) <|
    .cons (.call rfl (.loop nofun (.signalReady rfl)
      (.ready (by decide) (by decide) (.inl rfl)))) <|
    .cons (.call rfl (.loop nofun (.read rfl)
      (@TrapShared.Answers.records _ _ _ 0 (by decide) (by decide)))) <|
    .cons (.call rfl (.throws rfl rfl (by decide))) (.nil _), rfl, rfl, ?_, ?_⟩
  · intro hu
    have hend := hu _ (List.mem_singleton_self _)
    exact absurd hend.1 (by decide)
  · intro l shared call hstep
    cases hstep with
    | admitted hstate => exact absurd rfl hstate
    | refused hstate => exact ⟨rfl, rfl⟩

end ProcessCpp.Core
