import ProcessCpp.Base.Prelude
import ProcessCpp.Base.Transition
import ProcessCpp.Core.DeathObserver

/-!
# Subscribers of `child_died` that call the observer

Both emissions of `child_died` happen under the lock:

    std::lock_guard<std::mutex> lg(guard);
    …
    signals.child_died(new_process.second);

and `has` and `add` begin by locking the same mutex, which is not recursive. A subscriber that
asks the observer about a child, or that adds a replacement for the one that died, locks a
mutex its own thread already holds. (`SignalTrap`, by contrast, raises its signal with no lock
held.)

`nestSystem` gives every thread a stack of calls: an emission is in progress while the top
frame stands between `emit` and `erase`, and its subscribers may then push further calls.
`relocks_iff_subscriber_calls`: a thread locks what it holds exactly in the runs in which a
subscriber calls back.
-/

namespace ProcessCpp.Core

open ProcessCpp.Base ProcessCpp.Posix

/-! ## Threads with call frames -/

/-- A call in progress. `has` locks, looks into the map and unlocks with nothing in between
that anybody could see, so a frame of it always stands before its lock. -/
inductive Frame where
  | add (pc : AddPc)
  | has (c : ChildProcess)
  | onSigChild (pc : OscPc)

namespace Frame

/-- The next thing the call does is to lock `guard`. -/
def AtLock : Frame → Prop
  | .add (.start _) | .has _ | .onSigChild (.reaped _ _) => True
  | .add _ | .onSigChild _ => False

/-- The call is inside the scope of its `lock_guard`. -/
def Inside : Frame → Prop
  | .add (.start _) | .has _ | .onSigChild .wait | .onSigChild (.reaped _ _) => False
  | .add _ | .onSigChild _ => True

/-- Subscribers of `child_died` are running. -/
def Emitting : Frame → Prop
  | .add (.emitted _) | .onSigChild (.emitted _ _) => True
  | .add _ | .has _ | .onSigChild _ => False

theorem Emitting.inside {f : Frame} (h : f.Emitting) : f.Inside := by
  cases f with
  | add pc => cases pc <;> first | exact trivial | exact h.elim
  | has c => exact h.elim
  | onSigChild pc => cases pc <;> first | exact trivial | exact h.elim

theorem AtLock.not_inside {f : Frame} (h : f.AtLock) : ¬ f.Inside := by
  cases f with
  | add pc => cases pc <;> first | exact id | exact h.elim
  | has c => exact id
  | onSigChild pc => cases pc <;> first | exact id | exact h.elim

end Frame

/-- The observer, the kernel, and the calls each thread has in progress, innermost first. -/
structure NestState where
  kernel : Kernel
  observer : Observer
  frames : Nat → List Frame

inductive NestLabel where
  | kernel (l : KernelLabel)
  | waitFor (c : ChildProcess) (flags : Wait.Flags) (a : WaitAnswer)
  | callAdd (thread : Nat) (c : ChildProcess)
  | callHas (thread : Nat) (c : ChildProcess)
  | callOnSigChild (thread : Nat)
  | subscriberAdd (thread : Nat) (c : ChildProcess)
  | subscriberHas (thread : Nat) (c : ChildProcess)
  | add (thread : Nat) (l : AddLabel)
  | has (thread : Nat) (result : Bool)
  | onSigChild (thread : Nat) (l : OscLabel)

/-- The call comes from a subscriber, out of an emission. -/
def NestLabel.FromSubscriber : NestLabel → Prop
  | .subscriberAdd _ _ | .subscriberHas _ _ => True
  | .kernel _ | .waitFor _ _ _ | .callAdd _ _ | .callHas _ _ | .callOnSigChild _ | .add _ _
  | .has _ _ | .onSigChild _ _ => False

namespace NestState

def start (k : Kernel) : NestState := ⟨k, .initial, fun _ => []⟩

/-- The stack of one thread replaced. -/
def withStack (s : NestState) (i : Nat) (stack : List Frame) : NestState :=
  { s with frames := Function.update s.frames i stack }

/-- A step of the top frame of a thread, after which it is `f` or has returned. -/
def move (s : NestState) (i : Nat) (k' : Kernel) (o' : Observer) (f : Option Frame)
    (rest : List Frame) : NestState :=
  ⟨k', o', Function.update s.frames i (f.toList ++ rest)⟩

end NestState

/-- A step of the kernel, a call from a thread with nothing in progress, a call from a
subscriber, or a step of the innermost call of a thread. -/
inductive NestStep (s : NestState) : NestLabel → NestState → Prop where
  | kernel {l k'} (h : KernelStep s.kernel l k') :
      NestStep s (.kernel l) { s with kernel := k' }
  | waitFor {c flags a k'} (hmade : c.Made s.kernel)
      (hw : Waitpid s.kernel (.process c.pid) flags.options a k') :
      NestStep s (.waitFor c flags a) { s with kernel := k' }
  | callAdd {i c} (hidle : s.frames i = []) (hmade : c.Made s.kernel) :
      NestStep s (.callAdd i c) (s.withStack i [.add (.start c)])
  | callHas {i c} (hidle : s.frames i = []) (hmade : c.Made s.kernel) :
      NestStep s (.callHas i c) (s.withStack i [.has c])
  | callOnSigChild {i} (hidle : s.frames i = []) :
      NestStep s (.callOnSigChild i) (s.withStack i [.onSigChild .wait])
  | subscriberAdd {i c f rest} (htop : s.frames i = f :: rest) (hemit : f.Emitting)
      (hmade : c.Made s.kernel) :
      NestStep s (.subscriberAdd i c) (s.withStack i (.add (.start c) :: f :: rest))
  | subscriberHas {i c f rest} (htop : s.frames i = f :: rest) (hemit : f.Emitting)
      (hmade : c.Made s.kernel) :
      NestStep s (.subscriberHas i c) (s.withStack i (.has c :: f :: rest))
  | add {i pc rest l k' o' pc'} (htop : s.frames i = .add pc :: rest)
      (h : AddStep i s.kernel s.observer pc l k' o' pc') :
      NestStep s (.add i l) (s.move i k' o' (pc'.map .add) rest)
  | has {i c rest result} (htop : s.frames i = .has c :: rest) (hfree : s.observer.guard = none)
      (hresult : s.observer.has c = result) :
      NestStep s (.has i result) (s.move i s.kernel s.observer none rest)
  | onSigChild {i pc rest l k' o' pc'} (htop : s.frames i = .onSigChild pc :: rest)
      (h : OscStep i s.kernel s.observer pc l k' o' pc') :
      NestStep s (.onSigChild i l) (s.move i k' o' (pc'.map .onSigChild) rest)

def nestSystem : LTS NestState NestLabel where
  step := NestStep

/-! ## Who holds `guard` -/

/-- The thread holds the mutex. -/
def HeldByThread (guard : Option Locker) (i : Nat) : Prop :=
  guard = some (.add i) ∨ guard = some (.onSigChild i)

theorem HeldByThread.unique {guard : Option Locker} {i j : Nat} (hi : HeldByThread guard i)
    (hj : HeldByThread guard j) : i = j := by
  rcases hi with hi | hi <;> rcases hj with hj | hj <;> cases hi.symm.trans hj <;> rfl

theorem not_heldByThread_none (i : Nat) : ¬ HeldByThread none i := by
  rintro (h | h) <;> cases h

/-- The thread tries to lock a mutex that it holds. -/
def NestState.LocksHeld (s : NestState) (i : Nat) : Prop :=
  ∃ f rest, s.frames i = f :: rest ∧ f.AtLock ∧ HeldByThread s.observer.guard i

/-- The stack of a thread: one call at most, which holds the mutex exactly in the scope of its
guard; or a call out of an emission, which stands before its lock while the other holds it. -/
def StackOk (guard : Option Locker) (i : Nat) : List Frame → Prop
  | [] => ¬ HeldByThread guard i
  | [f] => f.Inside ↔ HeldByThread guard i
  | [g, _] => g.AtLock ∧ HeldByThread guard i
  | _ :: _ :: _ :: _ => False

def NestState.Ok (s : NestState) : Prop := ∀ i, StackOk s.observer.guard i (s.frames i)

theorem StackOk.congr {guard guard' : Option Locker} {i : Nat}
    (hguard : HeldByThread guard' i ↔ HeldByThread guard i) {stack : List Frame}
    (h : StackOk guard i stack) : StackOk guard' i stack := by
  match stack, h with
  | [], h => exact fun hheld => h (hguard.mp hheld)
  | [f], h => exact h.trans hguard.symm
  | [g, f], h => exact ⟨h.1, hguard.mpr h.2⟩

/-- A step of `add` that is in order, or that finds the mutex free: the mutex goes with the
scope of the guard, and no other thread gains or loses it. -/
theorem AddStep.heldByThread {me : Nat} {k k' : Kernel} {o o' : Observer} {pc : AddPc}
    {l : AddLabel} {pc' : Option AddPc} (h : AddStep me k o pc l k' o' pc')
    (hpc : (Frame.add pc).Inside ↔ HeldByThread o.guard me) :
    (∀ j, j ≠ me → (HeldByThread o'.guard j ↔ HeldByThread o.guard j)) ∧
      StackOk o'.guard me (pc'.map Frame.add).toList := by
  cases h with
  | invalidPid => exact ⟨fun _ _ => .rfl, hpc.not.mp id⟩
  | lock hpid hfree =>
    refine ⟨fun j hj => ?_, ⟨fun _ => .inl rfl, fun _ => trivial⟩⟩
    rw [hfree]
    exact ⟨fun hheld => absurd (hheld.unique (.inl rfl)) hj, fun hheld =>
      absurd hheld (not_heldByThread_none j)⟩
  | insert | present | alive | gone | emit | erase => exact ⟨fun _ _ => .rfl, hpc⟩
  | unlock =>
    have hme : HeldByThread o.guard me := hpc.mp trivial
    refine ⟨fun j hj => ?_, not_heldByThread_none me⟩
    exact ⟨fun hheld => absurd hheld (not_heldByThread_none j), fun hheld =>
      absurd (hheld.unique hme) hj⟩

theorem OscStep.heldByThread {me : Nat} {k k' : Kernel} {o o' : Observer} {pc : OscPc}
    {l : OscLabel} {pc' : Option OscPc} (h : OscStep me k o pc l k' o' pc')
    (hpc : (Frame.onSigChild pc).Inside ↔ HeldByThread o.guard me) :
    (∀ j, j ≠ me → (HeldByThread o'.guard j ↔ HeldByThread o.guard j)) ∧
      StackOk o'.guard me (pc'.map Frame.onSigChild).toList := by
  cases h with
  | noMoreChildren => exact ⟨fun _ _ => .rfl, hpc.not.mp id⟩
  | stray | reaped => exact ⟨fun _ _ => .rfl, hpc⟩
  | lock hfree =>
    refine ⟨fun j hj => ?_, ⟨fun _ => .inr rfl, fun _ => trivial⟩⟩
    rw [hfree]
    exact ⟨fun hheld => absurd (hheld.unique (.inr rfl)) hj, fun hheld =>
      absurd hheld (not_heldByThread_none j)⟩
  | found | notFound | emit | skip | erase => exact ⟨fun _ _ => .rfl, hpc⟩
  | unlock =>
    have hme : HeldByThread o.guard me := hpc.mp trivial
    refine ⟨fun j hj => ?_, ⟨False.elim, fun hheld => not_heldByThread_none me hheld⟩⟩
    exact ⟨fun hheld => absurd hheld (not_heldByThread_none j), fun hheld =>
      absurd (hheld.unique hme) hj⟩

/-- A call that stands before its lock does not move while its own thread holds the mutex. -/
theorem AddStep.not_blocked {me : Nat} {k k' : Kernel} {o o' : Observer} {pc : AddPc}
    {l : AddLabel} {pc' : Option AddPc} (h : AddStep me k o pc l k' o' pc')
    (hlock : (Frame.add pc).AtLock) : ¬ HeldByThread o.guard me := by
  cases h with
  | invalidPid hpid => omega
  | lock _ hfree =>
    rw [hfree]
    exact not_heldByThread_none me
  | insert | present | alive | gone | emit | erase | unlock => exact hlock.elim

theorem OscStep.not_blocked {me : Nat} {k k' : Kernel} {o o' : Observer} {pc : OscPc}
    {l : OscLabel} {pc' : Option OscPc} (h : OscStep me k o pc l k' o' pc')
    (hlock : (Frame.onSigChild pc).AtLock) : ¬ HeldByThread o.guard me := by
  cases h with
  | lock hfree =>
    rw [hfree]
    exact not_heldByThread_none me
  | noMoreChildren | stray | reaped | found | notFound | emit | skip | erase | unlock =>
    exact hlock.elim

/-- A thread whose top frame can move has no other frame. -/
theorem StackOk.alone {guard : Option Locker} {i : Nat} {f : Frame} {rest : List Frame}
    (h : StackOk guard i (f :: rest)) (hmoves : f.AtLock → ¬ HeldByThread guard i) :
    rest = [] ∧ (f.Inside ↔ HeldByThread guard i) := by
  match rest, h with
  | [], h => exact ⟨rfl, h⟩
  | [_], h => exact absurd h.2 (hmoves h.1)

/-! ## Steps -/

variable {s s' : NestState} {l : NestLabel}

/-- What a step does to the stacks: nothing, or it replaces one that had at most one call. It
gets a second one exactly if a subscriber calls. -/
theorem NestStep.effect (h : NestStep s l s') (hs : s.Ok) :
    (s'.frames = s.frames ∧ s'.observer.guard = s.observer.guard ∧ ¬ l.FromSubscriber) ∨
      ∃ i stack, s'.frames = Function.update s.frames i stack ∧
        (∀ j, j ≠ i → (HeldByThread s'.observer.guard j ↔ HeldByThread s.observer.guard j)) ∧
        StackOk s'.observer.guard i stack ∧ (s.frames i).length ≤ 1 ∧
        (l.FromSubscriber ↔ 1 < stack.length) := by
  cases h with
  | kernel | waitFor => exact .inl ⟨rfl, rfl, id⟩
  | @callAdd i c hidle | @callHas i c hidle | @callOnSigChild i hidle =>
    have hi := hs i
    rw [hidle] at hi
    refine .inr ⟨i, _, rfl, fun _ _ => .rfl, ⟨False.elim, fun hheld => hi hheld⟩, ?_, ?_⟩
    · simp [hidle]
    · simp [NestLabel.FromSubscriber]
  | @subscriberAdd i c f rest htop hemit | @subscriberHas i c f rest htop hemit =>
    -- the call below is inside, so it is the only one and the new one is blocked
    have hi := hs i
    rw [htop] at hi
    obtain ⟨rfl, hinside⟩ := hi.alone fun hlock => absurd hemit.inside hlock.not_inside
    refine .inr ⟨i, _, rfl, fun _ _ => .rfl, ⟨trivial, hinside.mp hemit.inside⟩, ?_, ?_⟩
    · simp [htop]
    · simp [NestLabel.FromSubscriber]
  | @add i pc rest l k' o' pc' htop hstep =>
    have hi := hs i
    rw [htop] at hi
    obtain ⟨rfl, hinside⟩ := hi.alone hstep.not_blocked
    obtain ⟨hothers, hown⟩ := hstep.heldByThread hinside
    refine .inr ⟨i, (pc'.map Frame.add).toList, ?_, hothers, hown, ?_, ?_⟩
    · simp [NestState.move]
    · simp [htop]
    · cases pc' <;> simp [NestLabel.FromSubscriber]
  | @has i c rest result htop hfree =>
    have hi := hs i
    rw [htop] at hi
    have hnot : ¬ HeldByThread s.observer.guard i := by
      rw [hfree]
      exact not_heldByThread_none i
    obtain ⟨rfl, -⟩ := hi.alone fun _ => hnot
    refine .inr ⟨i, [], ?_, fun _ _ => .rfl, hnot, ?_, ?_⟩
    · simp [NestState.move]
    · simp [htop]
    · simp [NestLabel.FromSubscriber]
  | @onSigChild i pc rest l k' o' pc' htop hstep =>
    have hi := hs i
    rw [htop] at hi
    obtain ⟨rfl, hinside⟩ := hi.alone hstep.not_blocked
    obtain ⟨hothers, hown⟩ := hstep.heldByThread hinside
    refine .inr ⟨i, (pc'.map Frame.onSigChild).toList, ?_, hothers, hown, ?_, ?_⟩
    · simp [NestState.move]
    · simp [htop]
    · cases pc' <;> simp [NestLabel.FromSubscriber]

theorem NestStep.ok (h : NestStep s l s') (hs : s.Ok) : s'.Ok := by
  intro j
  rcases h.effect hs with ⟨hframes, hguard, -⟩ | ⟨i, stack, hframes, hothers, hown, -, -⟩
  · rw [hframes, hguard]
    exact hs j
  · rw [hframes]
    by_cases hji : j = i
    · subst hji
      rw [Function.update_self]
      exact hown
    · rw [Function.update_of_ne hji]
      exact (hs j).congr (hothers j hji)

/-- A thread locks what it holds if and only if it has two calls in progress. -/
theorem NestState.Ok.locksHeld_iff (hs : s.Ok) (i : Nat) :
    s.LocksHeld i ↔ 1 < (s.frames i).length := by
  have hi := hs i
  unfold NestState.LocksHeld
  match s.frames i, hi with
  | [], _ => simp
  | [f], hi =>
    have hnot : ¬ (f.AtLock ∧ HeldByThread s.observer.guard i) := fun h =>
      h.1.not_inside (hi.mpr h.2)
    simpa using hnot
  | [g, f], hi => simpa using (show g.AtLock ∧ HeldByThread s.observer.guard i from hi)

theorem NestStep.relocks_iff (h : NestStep s l s') (hs : s.Ok) :
    (∀ i, ¬ s'.LocksHeld i) ↔ (∀ i, ¬ s.LocksHeld i) ∧ ¬ l.FromSubscriber := by
  simp only [(h.ok hs).locksHeld_iff, hs.locksHeld_iff]
  rcases h.effect hs with ⟨hframes, -, hl⟩ | ⟨i, stack, hframes, -, -, hlen, hl⟩
  · simp [hframes, hl]
  · rw [hframes, hl]
    constructor
    · intro hall
      refine ⟨fun j => ?_, by simpa using hall i⟩
      by_cases hji : j = i
      · subst hji
        omega
      · simpa [hji] using hall j
    · rintro ⟨hall, hstack⟩ j
      by_cases hji : j = i
      · subst hji
        simpa using hstack
      · simpa [hji] using hall j

/-! ## Runs -/

theorem NestState.ok_start (k : Kernel) : (NestState.start k).Ok :=
  fun i => not_heldByThread_none i

/-- In no state that the run goes through does a thread try to lock a mutex it holds. -/
def NeverRelocks (k : Kernel) (ls : List NestLabel) (s : NestState) : Prop :=
  ∀ pre post s', ls = pre ++ post → nestSystem.Run (.start k) pre s' →
    nestSystem.Run s' post s → ∀ i, ¬ s'.LocksHeld i

theorem not_locksHeld_iff {k : Kernel} {ls : List NestLabel}
    (h : nestSystem.Run (.start k) ls s) :
    (∀ i, ¬ s.LocksHeld i) ↔ ∀ l ∈ ls, ¬ l.FromSubscriber := by
  have hstart : ∀ i, ¬ (NestState.start k).LocksHeld i := by
    rintro i ⟨f, rest, hframes, -⟩
    cases hframes
  have hiff := h.good_iff_restrict (Q := NestState.Ok) (G := fun _ l => ¬ l.FromSubscriber)
    (fun _ _ _ hstep hx => NestStep.ok hstep hx)
    (fun _ _ _ hstep hx => NestStep.relocks_iff hstep hx) (NestState.ok_start k) hstart
  rw [hiff]
  exact ⟨fun hrun => hrun.forall_of_restrict, fun hls => h.restrict_of_forall hls⟩

/-- A thread locks the mutex it holds exactly in the runs in which a subscriber of
`child_died` calls `has` or `add` out of an emission. -/
theorem relocks_iff_subscriber_calls (k : Kernel) (ls : List NestLabel) (s : NestState)
    (h : nestSystem.Run (.start k) ls s) :
    NeverRelocks k ls s ↔ ∀ l ∈ ls, ¬ l.FromSubscriber := by
  constructor
  · intro hnever
    exact (not_locksHeld_iff h).mp (hnever ls [] s (List.append_nil ls).symm h (.nil s))
  · rintro hls pre post s' rfl hpre - i
    exact (not_locksHeld_iff hpre).mpr (fun l hl => hls l (List.mem_append_left _ hl)) i

/-- `add` finds that its child has ended, and announces it. -/
def addEmits : List NestLabel :=
  [.kernel (.fork 7), .kernel (.die 7 (.exited 0)), .callAdd 0 (.forked 7 0), .add 0 .lock,
    .add 0 .insert, .add 0 (.wait (.changed 7 (.terminated (.exited 0)))), .add 0 .emit]

/-- The subscribers return without calling the observer, and somebody else asks it. -/
def addReturns : List NestLabel :=
  [.add 0 .erase, .add 0 (.ret false), .callHas 0 (.forked 7 0), .has 0 false]

/-- A subscriber forks a replacement and adds it. -/
def replacementAdded : List NestLabel := [.kernel (.fork 8), .subscriberAdd 0 (.forked 8 1)]

theorem relocks_iff_subscriber_calls_addReturns :
    ∃ s, nestSystem.Run (.start .initOnly) (addEmits ++ addReturns) s ∧
      (NeverRelocks .initOnly (addEmits ++ addReturns) s ↔
        ∀ l ∈ addEmits ++ addReturns, ¬ l.FromSubscriber) := by
  have hrun : nestSystem.Run (.start .initOnly) (addEmits ++ addReturns) _ :=
    .cons (.kernel (.fork (by decide) rfl)) (.cons (.kernel (.die rfl nofun))
      (.cons (.callAdd rfl rfl) (.cons (.add rfl (.lock (by decide) rfl))
      (.cons (.add rfl (.insert rfl)) (.cons (.add rfl (.gone (.reap rfl rfl rfl) nofun))
      (.cons (.add rfl .emit) (.cons (.add rfl .erase) (.cons (.add rfl .unlock)
      (.cons (.callHas rfl rfl) (.cons (.has rfl rfl rfl) (.nil _)))))))))))
  exact ⟨_, hrun, relocks_iff_subscriber_calls .initOnly _ _ hrun⟩

/-- The thread that announces the death of child 7 adds child 8 out of the emission, and tries
to lock the mutex it holds. -/
theorem replacement_relocks :
    ∃ s, nestSystem.Run (.start .initOnly) (addEmits ++ replacementAdded) s ∧ s.LocksHeld 0 ∧
      ¬ NeverRelocks .initOnly (addEmits ++ replacementAdded) s := by
  obtain ⟨s, hrun, hlocks⟩ :
      ∃ s, nestSystem.Run (.start .initOnly) (addEmits ++ replacementAdded) s ∧
        s.LocksHeld 0 :=
    ⟨_, .cons (.kernel (.fork (by decide) rfl)) (.cons (.kernel (.die rfl nofun))
      (.cons (.callAdd rfl rfl) (.cons (.add rfl (.lock (by decide) rfl))
      (.cons (.add rfl (.insert rfl)) (.cons (.add rfl (.gone (.reap rfl rfl rfl) nofun))
      (.cons (.add rfl .emit) (.cons (.kernel (.fork (by decide) rfl))
      (.cons (.subscriberAdd rfl trivial rfl) (.nil _))))))))), _, _, rfl, trivial, .inl rfl⟩
  refine ⟨s, hrun, hlocks, fun hnever => ?_⟩
  exact hnever _ [] s (List.append_nil _).symm hrun (.nil s) 0 hlocks

end ProcessCpp.Core
