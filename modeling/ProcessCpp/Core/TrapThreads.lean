import ProcessCpp.Base.Prelude
import ProcessCpp.Core.SignalTrap

/-!
# Which threads a trap covers (signal.h:105–117, signal.cpp:56–93)

The header offers a trap "for the entire process" and one "for the current thread", whose
mask is inherited by "all child-threads". Both end in a call that changes the mask of the
calling thread (`SignalTrap.setSignalMask_eq`); the rest is inheritance: a new thread, a new
process and a new program start with the mask of the thread they came from.

A signal sent to a process is given to any of its threads that does not block it. It stays
pending, for a trap to read, only when all of them do.

- `TrapThreads`: processes with threads, each with its mask, and the traps alive in each
  process. A trap is shared, so any thread may be the one to destroy it;
- `trapThreadsSystem`: construction and destruction of traps, new threads, forks, execs, ends;
- `traps_hold_iff`: all traps of all processes hold as long as each is constructed while the
  other threads of its process block its signals already, whatever its scope;
- `trapped_forever`: nothing derived from a thread that has constructed a trap ever unblocks
  the trap's signals, neither when the trap is gone nor in another process or program.
-/

namespace ProcessCpp.Core

open ProcessCpp.Base ProcessCpp.Posix

/-! ## Threads with masks -/

/-- A thread of a process. -/
structure MaskedThread where
  proc : Nat
  mask : Mask
  alive : Bool

/-- All threads there have been, and the traps of every process. -/
structure TrapThreads where
  threads : Nat → Option MaskedThread
  traps : Nat → List SignalTrap

inductive TrapThreadsLabel where
  | construct (t : Nat) (eventfd : Except Errno Nat) (scope : Scope) (signals : List Signal)
  /-- thread `t` lets go of the last reference to the trap at place `i` -/
  | destroy (t i : Nat)
  | spawn (t new : Nat)
  | fork (t new child : Nat)
  | exec (t : Nat)
  | exit (t : Nat)

namespace TrapThreads

def setThread (s : TrapThreads) (t : Nat) (th : MaskedThread) : TrapThreads :=
  { s with threads := Function.update s.threads t (some th) }

def setTraps (s : TrapThreads) (p : Nat) (traps : List SignalTrap) : TrapThreads :=
  { s with traps := Function.update s.traps p traps }

/-- `execve(2)` ends all threads of the process but the caller. -/
def endOthers (s : TrapThreads) (t p : Nat) : TrapThreads :=
  { s with
    threads := fun t' => (s.threads t').map fun th =>
      if t' ≠ t ∧ th.proc = p then { th with alive := false } else th }

/-- Threads before the first trap. -/
def start (threads : Nat → Option MaskedThread) : TrapThreads := ⟨threads, fun _ => []⟩

/-- A signal sent to the process may be given to one of its threads. -/
def Deliverable (s : TrapThreads) (p n : ℕ) : Prop :=
  ∃ t th, s.threads t = some th ∧ th.alive = true ∧ th.proc = p ∧ n ∉ th.mask.blocked

/-- The signals of every trap, other than those no mask can hold, are kept for it. -/
def Trapped (s : TrapThreads) : Prop :=
  ∀ p, ∀ trap ∈ s.traps p, ∀ n ∈ trap.blockedSignalsMask, n ∉ unmaskable → ¬ s.Deliverable p n

end TrapThreads

/-- The steps of a thread that is alive. -/
inductive TrapThreadsStep (s : TrapThreads) : TrapThreadsLabel → TrapThreads → Prop where
  | constructed {t th eventfd scope signals trap mask} (ht : s.threads t = some th)
      (halive : th.alive = true)
      (hctor : SignalTrap.ctor eventfd scope signals th.mask = .ok (trap, mask)) :
      TrapThreadsStep s (.construct t eventfd scope signals)
        ((s.setThread t { th with mask }).setTraps th.proc (trap :: s.traps th.proc))
  | threw {t th eventfd scope signals e} (ht : s.threads t = some th) (halive : th.alive = true)
      (hctor : SignalTrap.ctor eventfd scope signals th.mask = .error e) :
      TrapThreadsStep s (.construct t eventfd scope signals) s
  | destroy {t th i trap} (ht : s.threads t = some th) (halive : th.alive = true)
      (htrap : (s.traps th.proc)[i]? = some trap) :
      TrapThreadsStep s (.destroy t i)
        ((s.setThread t { th with mask := trap.dtor th.mask }).setTraps th.proc
          ((s.traps th.proc).eraseIdx i))
  | spawn {t th new} (ht : s.threads t = some th) (halive : th.alive = true)
      (hnew : s.threads new = none) : TrapThreadsStep s (.spawn t new) (s.setThread new th)
  | fork {t th new child} (ht : s.threads t = some th) (halive : th.alive = true)
      (hnew : s.threads new = none)
      (hchild : ∀ t' th', s.threads t' = some th' → th'.proc ≠ child) :
      TrapThreadsStep s (.fork t new child)
        ((s.setThread new { th with proc := child }).setTraps child (s.traps th.proc))
  | exec {t th} (ht : s.threads t = some th) (halive : th.alive = true) :
      TrapThreadsStep s (.exec t) ((s.endOthers t th.proc).setTraps th.proc [])
  | exit {t th} (ht : s.threads t = some th) (halive : th.alive = true) :
      TrapThreadsStep s (.exit t) (s.setThread t { th with alive := false })

def trapThreadsSystem : LTS TrapThreads TrapThreadsLabel where
  step := TrapThreadsStep

/-! ## Masks -/

/-- What a constructor that returns makes of the mask. -/
theorem SignalTrap.ctor_mask {eventfd : Except Errno Nat} {scope : Scope} {signals : List Signal}
    {mask mask' : Mask} {trap : SignalTrap}
    (h : SignalTrap.ctor eventfd scope signals mask = .ok (trap, mask')) :
    mask' = mask.join trap.blockedSignalsMask ∧ ∃ fd, eventfd = .ok fd := by
  cases eventfd with
  | error e => cases h
  | ok fd =>
    rw [SignalTrap.ctor, SignalTrap.setSignalMask_eq] at h
    cases h
    exact ⟨rfl, fd, rfl⟩

theorem SignalTrap.blocked_subset_dtor (trap : SignalTrap) (mask : Mask) :
    mask.blocked ⊆ (trap.dtor mask).blocked := by
  rw [SignalTrap.dtor, SignalTrap.setSignalMask_eq]
  exact mask.blocked_subset_join _

theorem Mask.mem_join_of_mem {mask : Mask} {set : Finset ℕ} {n : ℕ} (h : n ∈ set)
    (hn : n ∉ unmaskable) : n ∈ (mask.join set).blocked :=
  Finset.mem_union_right _ (Finset.mem_sdiff.mpr ⟨h, hn⟩)

namespace TrapThreads

variable {s s' : TrapThreads} {l : TrapThreadsLabel}

theorem endOthers_threads {t p t' : Nat} {th' : MaskedThread}
    (h : (s.endOthers t p).threads t' = some th') :
    ∃ th, s.threads t' = some th ∧ th'.proc = th.proc ∧ th'.mask = th.mask ∧
      (th'.alive = true → th.alive = true) := by
  obtain ⟨th, hth, rfl⟩ := Option.map_eq_some_iff.mp h
  refine ⟨th, hth, ?_⟩
  split
  · exact ⟨rfl, rfl, nofun⟩
  · exact ⟨rfl, rfl, id⟩

/-- A thread that is there after a step was there before, with no more in its mask and in
the same process, or has just been made by one with that mask. -/
theorem thread_cases (h : TrapThreadsStep s l s') {t : Nat} {th : MaskedThread}
    (ht : s'.threads t = some th) :
    (∃ old, s.threads t = some old ∧ old.proc = th.proc ∧ old.mask.blocked ⊆ th.mask.blocked ∧
        (th.alive = true → old.alive = true)) ∨
      (s.threads t = none ∧ ∃ maker old, s.threads maker = some old ∧ old.alive = true ∧
        th.mask = old.mask ∧
        (l = .spawn maker t ∧ th.proc = old.proc ∨
          ∃ child, l = .fork maker t child ∧ th.proc = child)) := by
  cases h with
  | @constructed t₀ th₀ _ _ _ trap mask ht₀ halive hctor =>
    left
    rcases update_cases ht with ⟨rfl, ⟨⟩⟩ | ⟨-, hold⟩
    · refine ⟨th₀, ht₀, rfl, ?_, fun _ => halive⟩
      rw [(SignalTrap.ctor_mask hctor).1]
      exact th₀.mask.blocked_subset_join _
    · exact ⟨th, hold, rfl, Finset.Subset.refl _, id⟩
  | threw => exact .inl ⟨th, ht, rfl, Finset.Subset.refl _, id⟩
  | @destroy t₀ th₀ _ trap ht₀ halive htrap =>
    left
    rcases update_cases ht with ⟨rfl, ⟨⟩⟩ | ⟨-, hold⟩
    · exact ⟨th₀, ht₀, rfl, trap.blocked_subset_dtor _, fun _ => halive⟩
    · exact ⟨th, hold, rfl, Finset.Subset.refl _, id⟩
  | @spawn t₀ th₀ new ht₀ halive hnew =>
    rcases update_cases ht with ⟨rfl, ⟨⟩⟩ | ⟨-, hold⟩
    · exact .inr ⟨hnew, t₀, _, ht₀, halive, rfl, .inl ⟨rfl, rfl⟩⟩
    · exact .inl ⟨th, hold, rfl, Finset.Subset.refl _, id⟩
  | @fork t₀ th₀ new child ht₀ halive hnew hchild =>
    rcases update_cases ht with ⟨rfl, ⟨⟩⟩ | ⟨-, hold⟩
    · exact .inr ⟨hnew, t₀, th₀, ht₀, halive, rfl, .inr ⟨child, rfl, rfl⟩⟩
    · exact .inl ⟨th, hold, rfl, Finset.Subset.refl _, id⟩
  | @exec t₀ th₀ ht₀ halive =>
    obtain ⟨old, hold, hproc, hmask, hlive⟩ := endOthers_threads ht
    refine .inl ⟨old, hold, hproc.symm, ?_, hlive⟩
    rw [hmask]
  | @exit t₀ th₀ ht₀ halive =>
    left
    rcases update_cases ht with ⟨rfl, ⟨⟩⟩ | ⟨-, hold⟩
    · exact ⟨th₀, ht₀, rfl, Finset.Subset.refl _, nofun⟩
    · exact ⟨th, hold, rfl, Finset.Subset.refl _, id⟩

/-- What can be delivered after a step could be before, to the same process or to the one
that has just been forked. -/
theorem deliverable_cases (h : TrapThreadsStep s l s') {p n : ℕ} (hn : s'.Deliverable p n) :
    s.Deliverable p n ∨
      ∃ t th new, l = .fork t new p ∧ s.threads t = some th ∧ s.Deliverable th.proc n := by
  obtain ⟨t, th, ht, halive, rfl, hblocked⟩ := hn
  rcases thread_cases h ht with ⟨old, hold, hproc, hsub, hlive⟩ |
    ⟨-, t₀, old, hold, hlive, hmask, ⟨rfl, hproc⟩ | ⟨child, rfl, hproc⟩⟩
  · exact .inl ⟨t, old, hold, hlive halive, hproc, fun hmem => hblocked (hsub hmem)⟩
  · rw [hmask] at hblocked
    exact .inl ⟨t₀, old, hold, hlive, hproc.symm, hblocked⟩
  · rw [hmask] at hblocked
    rw [hproc]
    exact .inr ⟨t₀, old, t, rfl, hold, t₀, old, hold, hlive, rfl, hblocked⟩

/-! ## Traps that hold -/

/-- A trap is constructed only while the other threads of its process block its signals. -/
def CoversOthers (s : TrapThreads) : TrapThreadsLabel → Prop
  | .construct t (.ok _) _ signals => ∀ th, s.threads t = some th →
      ∀ t' th', s.threads t' = some th' → th'.alive = true → th'.proc = th.proc → t' ≠ t →
        ∀ n ∈ SignalTrap.collect signals, n ∉ unmaskable → n ∈ th'.mask.blocked
  | _ => True

/-- The constructor's own thread blocks the signals of the new trap. -/
theorem constructed_blocks {th : MaskedThread} {eventfd : Except Errno Nat} {scope : Scope}
    {signals : List Signal} {trap : SignalTrap} {mask : Mask}
    (hctor : SignalTrap.ctor eventfd scope signals th.mask = .ok (trap, mask)) {n : ℕ}
    (hn : n ∈ trap.blockedSignalsMask) (hmask : n ∉ unmaskable) : n ∈ mask.blocked := by
  rw [(SignalTrap.ctor_mask hctor).1]
  exact Mask.mem_join_of_mem hn hmask

theorem mem_setTraps {p p' : Nat} {traps : List SignalTrap} {trap : SignalTrap}
    (h : trap ∈ (s.setTraps p traps).traps p') :
    p' = p ∧ trap ∈ traps ∨ p' ≠ p ∧ trap ∈ s.traps p' := by
  have hmem : trap ∈ Function.update s.traps p traps p' := h
  by_cases hp : p' = p
  · subst hp
    rw [Function.update_self] at hmem
    exact .inl ⟨rfl, hmem⟩
  · rw [Function.update_of_ne hp] at hmem
    exact .inr ⟨hp, hmem⟩

/-- A trap of a process was there before, or has just been constructed by one of its threads,
or came with the memory of the process that forked. -/
theorem trap_cases (h : TrapThreadsStep s l s') {p : Nat} {trap : SignalTrap}
    (htrap : trap ∈ s'.traps p) :
    (trap ∈ s.traps p ∧ ∀ t new, l ≠ .fork t new p) ∨
      (∃ t th eventfd scope signals mask, l = .construct t eventfd scope signals ∧
        s.threads t = some th ∧ p = th.proc ∧
        SignalTrap.ctor eventfd scope signals th.mask = .ok (trap, mask)) ∨
      ∃ t th new, l = .fork t new p ∧ s.threads t = some th ∧ trap ∈ s.traps th.proc := by
  cases h with
  | @constructed t th eventfd scope signals new mask ht halive hctor =>
    rcases mem_setTraps htrap with ⟨rfl, hmem⟩ | ⟨-, hmem⟩
    · rcases List.mem_cons.mp hmem with rfl | hmem
      · exact .inr (.inl ⟨t, th, eventfd, scope, signals, mask, rfl, ht, rfl, hctor⟩)
      · exact .inl ⟨hmem, nofun⟩
    · exact .inl ⟨hmem, nofun⟩
  | destroy =>
    rcases mem_setTraps htrap with ⟨rfl, hmem⟩ | ⟨-, hmem⟩
    · exact .inl ⟨List.mem_of_mem_eraseIdx hmem, nofun⟩
    · exact .inl ⟨hmem, nofun⟩
  | @fork t th new child ht =>
    rcases mem_setTraps htrap with ⟨rfl, hmem⟩ | ⟨hp, hmem⟩
    · exact .inr (.inr ⟨t, th, new, rfl, ht, hmem⟩)
    · refine .inl ⟨hmem, ?_⟩
      rintro t' new' ⟨⟩
      exact hp rfl
  | exec =>
    rcases mem_setTraps htrap with ⟨-, hmem⟩ | ⟨-, hmem⟩
    · cases hmem
    · exact .inl ⟨hmem, nofun⟩
  | threw | spawn | exit => exact .inl ⟨htrap, nofun⟩

/-- Traps that hold go on to do so when a new one covers the others. -/
theorem Trapped.step (hs : s.Trapped) (h : TrapThreadsStep s l s') (hcovers : s.CoversOthers l) :
    s'.Trapped := by
  intro p trap htrap n hn hmask hdel
  rcases trap_cases h htrap with ⟨hold, hfork⟩ |
    ⟨t, th, eventfd, scope, signals, mask, rfl, ht, rfl, hctor⟩ | ⟨t, th, new, rfl, ht, hold⟩
  · rcases deliverable_cases h hdel with hdel | ⟨t, th, new, rfl, -⟩
    · exact hs p trap hold n hn hmask hdel
    · exact hfork t new rfl
  · obtain ⟨-, fd, rfl⟩ := SignalTrap.ctor_mask hctor
    cases h with
    | constructed ht₀ _ hctor₀ =>
      cases ht.symm.trans ht₀
      cases hctor.symm.trans hctor₀
      -- the thread itself blocks the signal now, and the others did before
      obtain ⟨t', th', ht', halive', hproc, hnot⟩ := hdel
      rcases update_cases ht' with ⟨-, ⟨⟩⟩ | ⟨hne, hold⟩
      · exact hnot (constructed_blocks hctor hn hmask)
      · rw [SignalTrap.ctor_eq_ok hctor] at hn
        exact hnot (hcovers th ht t' th' hold halive' hproc hne n hn hmask)
    | threw ht₀ _ hctor₀ =>
      cases ht.symm.trans ht₀
      cases hctor.symm.trans hctor₀
  · rcases deliverable_cases h hdel with hdel | ⟨t₀, th₀, new₀, ⟨⟩, ht₀, hdel⟩
    · obtain ⟨t', th', ht', -, hproc, -⟩ := hdel
      cases h with
      | fork _ _ _ hchild => exact hchild t' th' ht' hproc
    · cases ht.symm.trans ht₀
      exact hs th.proc trap hold n hn hmask hdel

/-- And only then. -/
theorem Trapped.covers (hs' : s'.Trapped) (h : TrapThreadsStep s l s') : s.CoversOthers l := by
  cases h with
  | @constructed t th eventfd scope signals trap mask ht halive hctor =>
    obtain ⟨-, fd, rfl⟩ := SignalTrap.ctor_mask hctor
    intro th₁ hth₁ t' th' ht' halive' hproc hne n hn hmask
    cases ht.symm.trans hth₁
    rw [← SignalTrap.ctor_eq_ok hctor] at hn
    by_contra hnot
    have hnew : trap ∈ Function.update s.traps th.proc (trap :: s.traps th.proc) th.proc := by
      rw [Function.update_self]
      exact List.mem_cons_self
    refine hs' th.proc trap hnew n hn hmask ?_
    exact ⟨t', th', (Function.update_of_ne hne ..).trans ht', halive', hproc, hnot⟩
  | @threw t th eventfd scope signals e ht halive hctor =>
    cases eventfd with
    | ok fd => cases hctor
    | error e' => trivial
  | _ => trivial

end TrapThreads

/-- **A trap covers the threads made after it, and no others**: along a run all traps of all
processes hold in every state if and only if each trap, whatever its scope, is constructed
while every other thread of its process blocks its signals already, those that a mask can
hold. -/
theorem traps_hold_iff (threads : Nat → Option MaskedThread) (ls : List TrapThreadsLabel)
    (s : TrapThreads) :
    (trapThreadsSystem.within TrapThreads.Trapped).Run (.start threads) ls s ↔
      (trapThreadsSystem.restrict TrapThreads.CoversOthers).Run (.start threads) ls s := by
  refine LTS.within_iff_restrict (Q := fun _ => True) (fun _ _ _ _ _ _ _ => trivial)
    (fun x l y hstep _ hx => ⟨fun hy => hy.covers hstep, hx.step hstep⟩) trivial ?_
  intro p trap htrap
  cases htrap

/-! ## Nothing is unblocked -/

/-- The step makes thread `new` out of thread `t`. -/
def TrapThreadsLabel.Makes : TrapThreadsLabel → Nat → Nat → Prop
  | .spawn t₀ new₀, t, new => t₀ = t ∧ new₀ = new
  | .fork t₀ new₀ _, t, new => t₀ = t ∧ new₀ = new
  | _, _, _ => False

/-- Thread `t'` is thread `t`, or was made, in these steps, by a thread derived from it. -/
def Derived : List TrapThreadsLabel → Nat → Nat → Prop
  | [], t, t' => t' = t
  | l :: ls, t, t' => Derived ls t t' ∨ ∃ new, l.Makes t new ∧ Derived ls new t'

namespace TrapThreads

variable {s s' : TrapThreads} {l : TrapThreadsLabel} {n : ℕ}

/-- The thread is there, alive or not, and blocks the signal. -/
def Blocks (s : TrapThreads) (t : Nat) (n : ℕ) : Prop :=
  ∃ th, s.threads t = some th ∧ n ∈ th.mask.blocked

theorem Blocks.step {t : Nat} (hb : s.Blocks t n) (h : TrapThreadsStep s l s') :
    s'.Blocks t n := by
  obtain ⟨th, ht, hn⟩ := hb
  cases h with
  | @constructed t₀ th₀ _ _ _ trap mask ht₀ halive hctor =>
    by_cases htt : t = t₀
    · subst htt
      cases ht.symm.trans ht₀
      refine ⟨{ th with mask }, Function.update_self .., ?_⟩
      show n ∈ mask.blocked
      rw [(SignalTrap.ctor_mask hctor).1]
      exact th.mask.blocked_subset_join _ hn
    · exact ⟨th, (Function.update_of_ne htt ..).trans ht, hn⟩
  | threw => exact ⟨th, ht, hn⟩
  | @destroy t₀ th₀ _ trap ht₀ halive htrap =>
    by_cases htt : t = t₀
    · subst htt
      cases ht.symm.trans ht₀
      exact ⟨{ th with mask := trap.dtor th.mask }, Function.update_self ..,
        trap.blocked_subset_dtor _ hn⟩
    · exact ⟨th, (Function.update_of_ne htt ..).trans ht, hn⟩
  | @spawn t₀ th₀ new ht₀ halive hnew =>
    have hne : t ≠ new := by
      rintro rfl
      cases ht.symm.trans hnew
    exact ⟨th, (Function.update_of_ne hne ..).trans ht, hn⟩
  | @fork t₀ th₀ new child ht₀ halive hnew hchild =>
    have hne : t ≠ new := by
      rintro rfl
      cases ht.symm.trans hnew
    exact ⟨th, (Function.update_of_ne hne ..).trans ht, hn⟩
  | @exec t₀ th₀ ht₀ halive =>
    -- the other threads of the process end, and the masks stay
    refine ⟨if t ≠ t₀ ∧ th.proc = th₀.proc then { th with alive := false } else th, ?_, ?_⟩
    · show (s.threads t).map _ = _
      rw [ht]
      rfl
    · split <;> exact hn
  | @exit t₀ th₀ ht₀ halive =>
    by_cases htt : t = t₀
    · subst htt
      cases ht.symm.trans ht₀
      exact ⟨{ th with alive := false }, Function.update_self .., hn⟩
    · exact ⟨th, (Function.update_of_ne htt ..).trans ht, hn⟩

/-- A new thread has the mask of the thread it was made by. -/
theorem Blocks.made {t new : Nat} (hb : s.Blocks t n) (h : TrapThreadsStep s l s')
    (hmakes : l.Makes t new) : s'.Blocks new n := by
  obtain ⟨th, ht, hn⟩ := hb
  cases h with
  | spawn ht₀ halive hnew =>
    obtain ⟨rfl, rfl⟩ := hmakes
    cases ht.symm.trans ht₀
    exact ⟨th, Function.update_self .., hn⟩
  | @fork t₀ th₀ new₀ child ht₀ halive hnew hchild =>
    obtain ⟨rfl, rfl⟩ := hmakes
    cases ht.symm.trans ht₀
    exact ⟨{ th with proc := child }, Function.update_self .., hn⟩
  | constructed | threw | destroy | exec | exit => exact hmakes.elim

theorem Blocks.run {ls : List TrapThreadsLabel} {t t' : Nat} (h : trapThreadsSystem.Run s ls s')
    (hb : s.Blocks t n) (hd : Derived ls t t') : s'.Blocks t' n := by
  induction h generalizing t with
  | nil =>
    cases hd
    exact hb
  | cons hstep _ ih =>
    rcases hd with hd | ⟨new, hmakes, hd⟩
    · exact ih (hb.step hstep) hd
    · exact ih (hb.made hstep hmakes) hd

end TrapThreads

/-- **A trapped signal stays blocked for good**: once a thread has constructed a trap, that
thread and all that is derived from it, in its own process, in forked ones and in programs
they execute, block the signals of the trap ever after, whether the trap still exists or
not. -/
theorem trapped_forever (s s₁ s' : TrapThreads) (t t' fd : Nat) (scope : Scope)
    (signals : List Signal) (ls : List TrapThreadsLabel)
    (hctor : TrapThreadsStep s (.construct t (.ok fd) scope signals) s₁)
    (hrun : trapThreadsSystem.Run s₁ ls s') (hd : Derived ls t t') (n : ℕ)
    (hn : n ∈ SignalTrap.collect signals) (hmask : n ∉ unmaskable) :
    ∃ th, s'.threads t' = some th ∧ n ∈ th.mask.blocked := by
  refine TrapThreads.Blocks.run hrun (t := t) ?_ hd
  cases hctor with
  | @constructed _ th _ _ _ trap mask ht halive h =>
    rw [← SignalTrap.ctor_eq_ok h] at hn
    exact ⟨{ th with mask }, Function.update_self .., TrapThreads.constructed_blocks h hn hmask⟩
  | threw ht halive h => cases h

/-- A process with one thread. -/
def oneThread : TrapThreads := .start fun t => if t = 0 then some ⟨1, .none, true⟩ else none

/-- The trap is destroyed, and then the thread forks a process that executes a program. -/
def destroyForkExec : List TrapThreadsLabel := [.destroy 0 0, .fork 0 7 2, .exec 7]

theorem destroyForkExec_run :
    ∃ s₁ s', TrapThreadsStep oneThread (.construct 0 (.ok 3) .process [⟨15⟩]) s₁ ∧
      trapThreadsSystem.Run s₁ destroyForkExec s' := by
  have hone : ∀ {f : Nat → Option MaskedThread} {th : MaskedThread}, th.proc = 1 →
      (∀ t th', f t = some th' → th'.proc ≠ 2) →
      ∀ t th', Function.update f 0 (some th) t = some th' → th'.proc ≠ 2 := by
    intro f th hth hf
    refine forall_update (fun t th' _ ht => hf t th' ht) ?_
    rintro _ ⟨⟩
    omega
  refine ⟨_, _, .constructed rfl rfl rfl, .cons (.destroy rfl rfl rfl) <|
    .cons (.fork rfl rfl rfl ?_) <| .cons (.exec rfl rfl) (.nil _)⟩
  refine hone rfl (hone rfl fun t th ht => ?_)
  have hroot : (if t = 0 then some (⟨1, .none, true⟩ : MaskedThread) else none) = some th := ht
  split at hroot
  · cases hroot
    decide
  · cases hroot

/-- The program starts with `SIGTERM` blocked. -/
theorem trapped_forever_destroyForkExec :
    ∃ s₁ s', TrapThreadsStep oneThread (.construct 0 (.ok 3) .process [⟨15⟩]) s₁ ∧
      trapThreadsSystem.Run s₁ destroyForkExec s' ∧
      ∃ th, s'.threads 7 = some th ∧ 15 ∈ th.mask.blocked := by
  obtain ⟨s₁, s', hctor, hrun⟩ := destroyForkExec_run
  have hd : Derived destroyForkExec 0 7 := .inl (.inr ⟨7, ⟨rfl, rfl⟩, .inl rfl⟩)
  exact ⟨s₁, s', hctor, hrun, trapped_forever oneThread s₁ s' 0 7 3 .process [⟨15⟩]
    destroyForkExec hctor hrun hd 15 (by decide) (by decide)⟩

end ProcessCpp.Core
