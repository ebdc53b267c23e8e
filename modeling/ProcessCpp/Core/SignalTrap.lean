import Mathlib.Data.Finset.Basic
import ProcessCpp.Base.Transition
import ProcessCpp.Core.Wait

/-!
# `SignalTrap`: construction, destruction and the signal mask (signal.cpp:30–99)

A trap blocks its signals in the constructor and is meant to undo that in the
destructor. Both directions go through the same two helpers, and both helpers
pass `SIG_BLOCK`: restoring the saved mask therefore *adds* the saved signals to
the current mask and unblocks nothing.

- `Mask`: a thread's blocked-signal mask. The kernel never holds `SIGKILL` or
  `SIGSTOP` in a mask, which is a field of the structure.
- `SignalTrap.ctor`, `SignalTrap.dtor`, `SignalTrap.has`: the member functions.
- `trapSystem`: a thread that constructs and destroys traps in a properly nested
  order, as a transition system over its mask and its stack of living traps.
- `trap_undone_iff`: a complete sequence ends with the initial mask, and has the
  expected mask at every point on the way, if and only if none of its traps had
  anything to block that was not blocked from the start.
-/

namespace ProcessCpp.Core

open ProcessCpp.Base ProcessCpp.Posix

/-! ## Signal sets and masks -/

/-- A number `sigaddset(3)` accepts: that of a signal. glibc keeps 32 and 33 for its own use,
refuses to add them to a set and answers `0` for them in `sigismember`; here they are signals
like the others. -/
def isSignal (n : Int) : Prop := 1 ≤ n ∧ n ≤ 64

instance (n : Int) : Decidable (isSignal n) := inferInstanceAs (Decidable (_ ∧ _))

/-- `sigaddset(3)`: the set is unchanged when the number is not a signal. -/
def sigaddset (set : Finset ℕ) (signo : Int) : Finset ℕ :=
  if isSignal signo then insert signo.toNat set else set

/-- `sigismember(3)`: 1, 0, or -1 for a number that is not a signal. -/
def sigismember (set : Finset ℕ) (signo : Int) : Int :=
  if isSignal signo then (if signo.toNat ∈ set then 1 else 0) else -1

/-- `SIGKILL` and `SIGSTOP`: the kernel drops them from every mask. -/
def unmaskable : Finset ℕ := {9, 19}

/-- The blocked-signal mask of a thread. -/
structure Mask where
  blocked : Finset ℕ
  disjoint : ∀ s ∈ blocked, s ∉ unmaskable

namespace Mask

theorem ext {m n : Mask} (h : m.blocked = n.blocked) : m = n := by
  cases m
  cases n
  cases h
  rfl

/-- The mask joined with the members of a set that a mask can hold. -/
def join (m : Mask) (set : Finset ℕ) : Mask where
  blocked := m.blocked ∪ set \ unmaskable
  disjoint := by
    intro s hs
    rcases Finset.mem_union.mp hs with h | h
    · exact m.disjoint s h
    · exact (Finset.mem_sdiff.mp h).2

theorem join_eq_self_iff (m : Mask) (set : Finset ℕ) :
    m.join set = m ↔ ∀ s ∈ set, s ∉ unmaskable → s ∈ m.blocked := by
  constructor
  · intro h s hs hu
    rw [← h]
    exact Finset.mem_union_right _ (Finset.mem_sdiff.mpr ⟨hs, hu⟩)
  · intro h
    refine ext (Finset.union_eq_left.mpr fun s hs => ?_)
    obtain ⟨hset, hu⟩ := Finset.mem_sdiff.mp hs
    exact h s hset hu

theorem blocked_subset_join (m : Mask) (set : Finset ℕ) : m.blocked ⊆ (m.join set).blocked :=
  Finset.subset_union_left

end Mask

/-- `pthread_sigmask(SIG_BLOCK, new, old)`: the new mask, and the old one, which
the caller may ignore by passing `nullptr`. -/
def sigBlock (mask : Mask) (newMask : Finset ℕ) : Mask × Mask := (mask.join newMask, mask)

/-- `set_thread_signal_mask`. -/
def setThreadSignalMask (mask : Mask) (newMask : Finset ℕ) : Mask × Mask := sigBlock mask newMask

/-- `set_process_signal_mask`: `sigprocmask(2)` changes the mask of the calling
thread too. -/
def setProcessSignalMask (mask : Mask) (newMask : Finset ℕ) : Mask × Mask := sigBlock mask newMask

/-! ## The class -/

/-- `SignalTrap::Scope`. -/
inductive Scope where
  | process
  | thread
deriving DecidableEq, Repr

/-- The data members a trap's constructor and destructor use. -/
structure SignalTrap where
  scope : Scope
  eventFd : Nat
  oldSignalsMask : Mask
  blockedSignalsMask : Finset ℕ

namespace SignalTrap

/-- The `switch (scope)` of constructor and destructor. -/
def setSignalMask (scope : Scope) (mask : Mask) (newMask : Finset ℕ) : Mask × Mask :=
  match scope with
  | .process => setProcessSignalMask mask newMask
  | .thread => setThreadSignalMask mask newMask

/-- The loop of the constructor over its initializer list. -/
def collect (signals : List Signal) : Finset ℕ :=
  signals.foldl (fun set signal => sigaddset set signal.toInt) ∅

/-- `SignalTrap::SignalTrap`, over the answer of `eventfd(2)`: it throws before
it touches the mask, or returns the trap and the new mask. -/
def ctor (eventfd : Except Errno Nat) (scope : Scope) (signals : List Signal) (mask : Mask) :
    Except Errno (SignalTrap × Mask) :=
  match eventfd with
  | .error e => .error e
  | .ok fd =>
    let blocked := collect signals
    let (newMask, oldMask) := setSignalMask scope mask blocked
    .ok ({ scope, eventFd := fd, oldSignalsMask := oldMask, blockedSignalsMask := blocked },
      newMask)

/-- `SignalTrap::~SignalTrap`, as far as the mask goes. -/
def dtor (trap : SignalTrap) (mask : Mask) : Mask :=
  (setSignalMask trap.scope mask trap.oldSignalsMask.blocked).1

/-- `SignalTrap::has`: the three-valued result of `sigismember` as a `bool`. -/
def has (trap : SignalTrap) (signal : Signal) : Bool :=
  sigismember trap.blockedSignalsMask signal.toInt != 0

@[simp] theorem setSignalMask_eq (scope : Scope) (mask : Mask) (newMask : Finset ℕ) :
    setSignalMask scope mask newMask = (mask.join newMask, mask) := by
  cases scope <;> rfl

/-! What a trap has, in terms of the list it was built from. -/

theorem mem_sigaddset {set : Finset ℕ} {signo : Int} {n : ℕ} :
    n ∈ sigaddset set signo ↔ (isSignal signo ∧ n = signo.toNat) ∨ n ∈ set := by
  unfold sigaddset
  by_cases h : isSignal signo
  · simp [h]
  · simp [h]

/-- The loop of the constructor, from any set on. -/
theorem mem_foldl_sigaddset (signals : List Signal) (set : Finset ℕ) (n : ℕ) :
    n ∈ signals.foldl (fun set signal => sigaddset set signal.toInt) set ↔
      (∃ signal ∈ signals, isSignal signal.toInt ∧ n = signal.toInt.toNat) ∨ n ∈ set := by
  induction signals generalizing set with
  | nil => simp
  | cons signal signals ih =>
    rw [List.foldl_cons, ih, mem_sigaddset]
    simp only [List.mem_cons, exists_eq_or_imp]
    exact or_left_comm.trans or_assoc.symm

/-- Distinct signals have distinct numbers, so the set of numbers knows which signals were
given. -/
theorem mem_collect {signals : List Signal} {signal : Signal} (h : isSignal signal.toInt) :
    signal.toInt.toNat ∈ collect signals ↔ signal ∈ signals := by
  rw [collect, mem_foldl_sigaddset]
  constructor
  · rintro (⟨signal', hmem, hsig, heq⟩ | hempty)
    · have hint : signal.toInt = signal'.toInt := by
        obtain ⟨hlo, -⟩ := h
        obtain ⟨hlo', -⟩ := hsig
        omega
      cases signal
      cases signal'
      cases hint
      exact hmem
    · exact absurd hempty (Finset.notMem_empty _)
  · intro hmem
    exact .inl ⟨signal, hmem, h, rfl⟩

theorem ctor_eq_ok {eventfd : Except Errno Nat} {scope : Scope} {signals : List Signal}
    {mask mask' : Mask} {trap : SignalTrap}
    (h : ctor eventfd scope signals mask = .ok (trap, mask')) :
    trap.blockedSignalsMask = collect signals := by
  cases eventfd with
  | error e => cases h
  | ok fd =>
    cases h
    rfl

/-- `has` over the list the trap was built from: every number that is not a signal is
"trapped". -/
theorem has_eq_true_iff {trap : SignalTrap} {signals : List Signal}
    (h : trap.blockedSignalsMask = collect signals) (s : Signal) :
    trap.has s = true ↔ (isSignal s.toInt → s ∈ signals) := by
  unfold has sigismember
  rw [h]
  by_cases hs : isSignal s.toInt
  · rw [if_pos hs]
    by_cases hmem : s ∈ signals
    · simp [hmem, (mem_collect hs).mpr hmem]
    · simp [hs, hmem, mt (mem_collect hs).mp hmem]
  · simp [hs]

end SignalTrap

/-! ## Nested traps in one thread -/

/-- A living trap, with the mask it found and the list it was given. -/
structure LivingTrap where
  trap : SignalTrap
  before : Mask
  signals : List Signal

/-- A thread: its mask and its living traps, innermost first. -/
structure TrapThread where
  mask : Mask
  living : List LivingTrap

/-- Constructing a trap (with the answer `eventfd(2)` gives), or destroying the
innermost one. -/
inductive TrapEvent where
  | construct (eventfd : Except Errno Nat) (scope : Scope) (signals : List Signal)
  | destroy

/-- One construction or destruction. A constructor that throws leaves no trap. -/
inductive TrapThread.Step : TrapThread → TrapEvent → TrapThread → Prop where
  | constructed {s : TrapThread} {eventfd : Except Errno Nat} {scope : Scope}
      {signals : List Signal} {trap : SignalTrap} {mask : Mask} :
      SignalTrap.ctor eventfd scope signals s.mask = .ok (trap, mask) →
      Step s (.construct eventfd scope signals)
        ⟨mask, ⟨trap, s.mask, signals⟩ :: s.living⟩
  | threw {s : TrapThread} {eventfd : Except Errno Nat} {scope : Scope}
      {signals : List Signal} {e : Errno} :
      SignalTrap.ctor eventfd scope signals s.mask = .error e →
      Step s (.construct eventfd scope signals) s
  | destroyed {mask : Mask} {t : LivingTrap} {living : List LivingTrap} :
      Step ⟨mask, t :: living⟩ .destroy ⟨t.trap.dtor mask, living⟩

/-- The thread as a transition system. -/
def trapSystem : LTS TrapThread TrapEvent where
  step := TrapThread.Step

/-- The lists of the traps that a sequence of events constructs. -/
def constructed : List TrapEvent → List (List Signal)
  | [] => []
  | .construct (.ok _) _ signals :: es => signals :: constructed es
  | .construct (.error _) _ _ :: es => constructed es
  | .destroy :: es => constructed es

/-- What the mask should be at a point with a living trap: the mask before the
innermost one, joined with that trap's signals. -/
def TrapThread.AsExpected (s : TrapThread) : Prop :=
  ∀ t rest, s.living = t :: rest → s.mask = t.before.join (SignalTrap.collect t.signals)

/-- What a step does to the mask: a successful construction joins the signals
in, a destruction joins the saved mask in. -/
theorem step_mask {s s' : TrapThread} {e : TrapEvent} (h : TrapThread.Step s e s') :
    (∃ fd scope signals t, e = .construct (.ok fd) scope signals ∧
        s'.mask = s.mask.join (SignalTrap.collect signals) ∧ s'.living = t :: s.living ∧
        t.before = s.mask ∧ t.trap.oldSignalsMask = s.mask ∧ t.signals = signals) ∨
      (∃ err scope signals, e = .construct (.error err) scope signals ∧ s' = s) ∨
      (∃ t, e = .destroy ∧ s.living = t :: s'.living ∧
        s'.mask = s.mask.join t.trap.oldSignalsMask.blocked) := by
  cases h with
  | @constructed _ eventfd scope signals trap mask hctor =>
    cases eventfd with
    | error err => cases hctor
    | ok fd =>
      simp only [SignalTrap.ctor, SignalTrap.setSignalMask_eq] at hctor
      cases hctor
      exact .inl ⟨fd, scope, signals, _, rfl, rfl, rfl, rfl, rfl, rfl⟩
  | @threw _ eventfd scope signals err hctor =>
    cases eventfd with
    | error err' => exact .inr (.inl ⟨err', scope, signals, rfl, rfl⟩)
    | ok fd => cases hctor
  | @destroyed mask t living =>
    -- `SIG_BLOCK` here too: the saved mask is joined in, not put back
    refine .inr (.inr ⟨t, rfl, rfl, ?_⟩)
    simp only [SignalTrap.dtor, SignalTrap.setSignalMask_eq]

/-! ### Masks only grow -/

/-- Along a run nothing is ever unblocked, and every signal of every constructed
trap that a mask can hold ends up blocked. -/
theorem run_grows {s s' : TrapThread} {es : List TrapEvent} (h : trapSystem.Run s es s') :
    s.mask.blocked ⊆ s'.mask.blocked ∧
      ∀ signals ∈ constructed es, ∀ n ∈ SignalTrap.collect signals, n ∉ unmaskable →
        n ∈ s'.mask.blocked := by
  induction h with
  | nil => exact ⟨Finset.Subset.refl _, fun _ hmem => absurd hmem List.not_mem_nil⟩
  | cons hstep _ ih =>
    obtain ⟨hsub, hsigs⟩ := ih
    rcases step_mask hstep with
      ⟨fd, scope, signals, t, rfl, hmask, -, -, -, -⟩ | ⟨err, scope, signals, rfl, rfl⟩ |
      ⟨t, rfl, -, hmask⟩
    · rw [hmask] at hsub
      refine ⟨(Mask.blocked_subset_join _ _).trans hsub, fun l hl n hn hu => ?_⟩
      rcases List.mem_cons.mp hl with rfl | hl
      · exact hsub (Finset.mem_union_right _ (Finset.mem_sdiff.mpr ⟨hn, hu⟩))
      · exact hsigs l hl n hn hu
    · exact ⟨hsub, hsigs⟩
    · rw [hmask] at hsub
      exact ⟨(Mask.blocked_subset_join _ _).trans hsub, hsigs⟩

/-! ### Traps that block nothing new -/

/-- Every list in `lists` asks only for signals the mask `m` already blocks (or
that no mask can hold). -/
def BlocksNothingNew (m : Mask) (lists : List (List Signal)) : Prop :=
  ∀ signals ∈ lists, ∀ n ∈ SignalTrap.collect signals, n ∉ unmaskable → n ∈ m.blocked

/-- The state of a thread whose traps have blocked nothing new so far: its mask
is still `m`, which is also what every living trap found and saved. -/
structure Untouched (m : Mask) (s : TrapThread) : Prop where
  mask : s.mask = m
  living : ∀ t ∈ s.living, t.before = m ∧ t.trap.oldSignalsMask = m ∧
    m.join (SignalTrap.collect t.signals) = m

theorem untouched_run {m : Mask} {s s' : TrapThread} {es : List TrapEvent}
    (h : trapSystem.Run s es s') (hnew : BlocksNothingNew m (constructed es))
    (hs : Untouched m s) : Untouched m s' := by
  induction h with
  | nil => exact hs
  | cons hstep _ ih =>
    rcases step_mask hstep with
      ⟨fd, scope, signals, t, rfl, hmask, hliv, hbefore, hold, hsig⟩ |
      ⟨err, scope, signals, rfl, rfl⟩ | ⟨t, rfl, hliv, hmask⟩
    · have hjoin : m.join (SignalTrap.collect signals) = m :=
        (Mask.join_eq_self_iff m _).mpr (hnew signals (List.mem_cons_self ..))
      refine ih (fun l hl => hnew l (List.mem_cons_of_mem _ hl)) ⟨?_, fun u hu => ?_⟩
      · rw [hmask, hs.mask, hjoin]
      · rw [hliv] at hu
        rcases List.mem_cons.mp hu with rfl | hu
        · rw [hbefore, hold, hs.mask, hsig]
          exact ⟨rfl, rfl, hjoin⟩
        · exact hs.living u hu
    · exact ih hnew hs
    · refine ih hnew ⟨?_, fun u hu => ?_⟩
      · have ht := (hs.living t (by rw [hliv]; exact List.mem_cons_self ..)).2.1
        rw [hmask, hs.mask, ht, Mask.join_eq_self_iff]
        exact fun n hn _ => hn
      · exact hs.living u (by rw [hliv]; exact List.mem_cons_of_mem _ hu)

theorem Untouched.asExpected {m : Mask} {s : TrapThread} (h : Untouched m s) : s.AsExpected := by
  intro t rest hliv
  obtain ⟨hbefore, -, hjoin⟩ := h.living t (by rw [hliv]; exact List.mem_cons_self ..)
  rw [hbefore, h.mask, hjoin]

/-- What a sequence of events from the mask `m` should achieve: the expected mask
at every point, and `m` again once no trap is alive. -/
def UndoneBy (m : Mask) (es : List TrapEvent) : Prop :=
  (∀ pre post p, es = pre ++ post → trapSystem.Run ⟨m, []⟩ pre p → p.AsExpected) ∧
    ∀ s, trapSystem.Run ⟨m, []⟩ es s → s.living = [] → s.mask = m

theorem constructed_append (pre post : List TrapEvent) :
    constructed (pre ++ post) = constructed pre ++ constructed post := by
  induction pre with
  | nil => rfl
  | cons e pre ih =>
    cases e with
    | construct eventfd scope signals =>
      cases eventfd with
      | error err => exact ih
      | ok fd => exact congrArg (signals :: ·) ih
    | destroy => exact ih

/-- **Destroying traps restores the mask exactly when there is nothing to
restore**: for every initial mask and every properly nested sequence of
constructions and destructions that leaves no trap alive, the mask is the
expected one at every point and the initial one at the end if and only if every
signal given to a constructed trap was blocked to begin with (or is one that no
mask can hold). -/
theorem trap_undone_iff (m : Mask) (es : List TrapEvent) (s : TrapThread)
    (h : trapSystem.Run ⟨m, []⟩ es s) (hempty : s.living = []) :
    UndoneBy m es ↔ BlocksNothingNew m (constructed es) := by
  constructor
  · -- what a trap has blocked is still blocked at the end
    rintro ⟨-, hundone⟩ signals hsig n hn hu
    have hgrown := (run_grows h).2 signals hsig n hn hu
    rwa [hundone s h hempty] at hgrown
  · -- no mask on the way differs from the first
    intro hnew
    have hinit : Untouched m ⟨m, []⟩ := ⟨rfl, fun t ht => absurd ht List.not_mem_nil⟩
    refine ⟨fun pre post p hes hp => ?_, fun s hs _ => (untouched_run hs hnew hinit).mask⟩
    have hpre : BlocksNothingNew m (constructed pre) := by
      intro signals hsig
      refine hnew signals ?_
      rw [hes, constructed_append]
      exact List.mem_append_left _ hsig
    exact (untouched_run hp hpre hinit).asExpected

/-- The mask in which nothing is blocked. -/
def Mask.none : Mask := ⟨∅, fun _ h => absurd h (Finset.notMem_empty _)⟩

/-- One trap, constructed and destroyed. -/
def oneTrap (signals : List Signal) : List TrapEvent :=
  [.construct (.ok 3) .thread signals, .destroy]

theorem oneTrap_run (m : Mask) (signals : List Signal) :
    trapSystem.Run ⟨m, []⟩ (oneTrap signals)
      ⟨(m.join (SignalTrap.collect signals)).join m.blocked, []⟩ :=
  .cons (.constructed rfl) (.cons .destroyed (.nil _))

theorem trap_undone_iff_sigchld_blocked :
    UndoneBy (Mask.none.join {17}) (oneTrap [Signal.sigChld]) ↔
      BlocksNothingNew (Mask.none.join {17}) (constructed (oneTrap [Signal.sigChld])) :=
  trap_undone_iff (Mask.none.join {17}) (oneTrap [Signal.sigChld]) _ (oneTrap_run _ _) rfl

/-- A trap for `SIGCHLD` leaves the signal blocked behind it. -/
theorem trap_sigchld_not_undone : ¬ UndoneBy Mask.none (oneTrap [Signal.sigChld]) := by
  rintro ⟨-, hundone⟩
  have hmask : (Mask.none.join (SignalTrap.collect [Signal.sigChld])).join Mask.none.blocked =
      Mask.none :=
    hundone _ (oneTrap_run Mask.none [Signal.sigChld]) rfl
  have hblocked : 17 ∈ ((Mask.none.join (SignalTrap.collect [Signal.sigChld])).join
      Mask.none.blocked).blocked := by decide
  rw [hmask] at hblocked
  exact absurd hblocked (by decide)

end ProcessCpp.Core
