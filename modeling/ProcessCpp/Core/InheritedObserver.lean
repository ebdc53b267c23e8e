import ProcessCpp.Base.Family
import ProcessCpp.Core.OtherWaiters
import ProcessCpp.Core.ProcessTree

/-!
# The observer a forked process inherits (child_process.cpp:65–139, fork.cpp:57–120)

A fork copies the observer with all that is in `children`. The new process knows the children
of its parent, has them in its map, and can call `add` for their values, but they are not its
own: `waitpid(2)` says `ECHILD` for them, which `add` takes for a death it has missed, and
`waitpid(0, ..)` never reports them to `on_sig_child`. Nothing in the source asks whose
children they are (`original_parent_pid` is for the destructor alone).

- `ObserverState.forkedCopy`, `observerKind`: a tree of processes with an observer each. The
  child of `core::posix::fork` runs its `main` and exits, so nothing that a thread of the
  parent was in the middle of goes on there;
- `ObserverState.ForkedSince`: the process has forked a child with this pid itself;
- `BornAs`: what a process makes of the state it was born with. Pids may be given out again,
  and then what is said about a pid ends with the process's own fork of it;
- `watches_own_children_only`: the children of others stay in the map without a word, or are
  announced by the `add` that was asked to watch them.
-/

namespace ProcessCpp.Core

open ProcessCpp.Base ProcessCpp.Posix

/-- The new process: the memory of its parent, and no thread inside the observer. -/
def ObserverState.forkedCopy (s : ObserverState) : ObserverState where
  kernel := seenByChild s.kernel
  observer := s.observer
  adding := fun _ => none
  handling := fun _ => none

/-- The processes with an observer each. That the caller of a fork has a new child is the step
`fork` of its kernel. -/
def observerKind : ProcessKind Unit ObserverState ObserverLabel Unit where
  step _ s l _ s' := ObserverStep s l s'
  fork s _ s' := s' = s.forkedCopy

/-- The process `t`, born in the state `s`, has forked a child with this pid. -/
def ObserverState.ForkedSince (s t : ObserverState) (pid : Nat) : Prop :=
  ∃ serial, s.kernel.forks.length ≤ serial ∧ t.kernel.forks[serial]? = some pid

/-! ## Birth -/

section

variable {s t t' : ObserverState} {l : ObserverLabel} {pid : Nat}

theorem seenByChild_slots {k : Kernel} (c : Child) : (seenByChild k).slots pid ≠ .child c := by
  unfold seenByChild
  dsimp only
  split
  · exact nofun
  · rename_i hslot
    exact hslot c

theorem seenByChild_wf {k : Kernel} (h : k.WF) : (seenByChild k).WF where
  slot pid c hslot := absurd hslot (seenByChild_slots c)
  owner serial pid hfork := by
    have hlt : serial < k.forks.length := (List.getElem?_eq_some_iff.mp hfork).1
    exact .inl (List.mem_range.mpr hlt)
  pid_pos := h.pid_pos
  reaped_lt serial hr := List.mem_range.mp hr

theorem ObserverState.Sound.forkedCopy (h : s.Sound) : s.forkedCopy.Sound :=
  ⟨seenByChild_wf h.wf, h.mapped, nofun, nofun⟩

/-! ## What a process makes of what it inherits -/

/-- The process `t` was born as a copy of `s`. -/
structure BornAs (s t : ObserverState) : Prop where
  sound : t.Sound
  guarded : t.Guarded
  /-- none of the children of its parent is its own -/
  reaped : ∀ serial < s.kernel.forks.length, serial ∈ t.kernel.reaped
  kept : ∀ pid c, s.observer.children pid = some c → ¬ s.ForkedSince t pid →
    t.observer.children pid = some c ∧
      t.observer.announcements pid = s.observer.announcements pid
  hand : ∀ pid, t.InHand pid → s.ForkedSince t pid
  window : ∀ c, t.InsideAdd c → s.observer.children c.pid = none ∨ s.ForkedSince t c.pid
  own : ∀ pid c, t.observer.children pid = some c →
    s.observer.children pid = some c ∨ t.InsideAdd c ∨ s.ForkedSince t pid
  added : ∀ i c, t.adding i = some (.leaving c true) → s.ForkedSince t c.pid
  announced : ∀ pid, s.observer.announcements pid ≤ t.observer.announcements pid
  emitted : ∀ i c, t.adding i = some (.emitted c) →
    s.observer.announcements c.pid < t.observer.announcements c.pid
  refused : ∀ i c, t.adding i = some (.leaving c false) → s.observer.children c.pid = none →
    s.ForkedSince t c.pid ∨ s.observer.announcements c.pid < t.observer.announcements c.pid

theorem BornAs.forkedCopy (h : s.Sound) : BornAs s s.forkedCopy where
  sound := h.forkedCopy
  guarded := ⟨nofun, nofun⟩
  reaped serial hlt := List.mem_range.mpr hlt
  kept pid c hc _ := ⟨hc, rfl⟩
  hand := by
    rintro pid ⟨i, pc, hi, -⟩
    cases hi
  window := by
    rintro c ⟨i, pc, hi, -⟩
    cases hi
  own pid c hc := .inl hc
  added := nofun
  announced pid := le_rfl
  emitted := nofun
  refused := nofun

theorem ObserverState.ForkedSince.step (h : s.ForkedSince t pid) (hstep : ObserverStep t l t') :
    s.ForkedSince t' pid := by
  obtain ⟨serial, hle, hfork⟩ := h
  exact ⟨serial, hle, hstep.forksKept serial pid hfork⟩

/-- Only its own children have a place in its table. -/
theorem BornAs.forkedSince_of_slot (h : BornAs s t) {c : Child}
    (hslot : t.kernel.slots pid = .child c) : s.ForkedSince t pid := by
  obtain ⟨hfork, hnot⟩ := h.sound.wf.slot pid c hslot
  refine ⟨c.serial, ?_, hfork⟩
  by_contra hlt
  exact hnot (h.reaped c.serial (Nat.lt_of_not_le hlt))

/-- `waitpid(2)` says that a child lives only of its own. -/
theorem BornAs.forkedSince_of_alive (h : BornAs s t) {k' : Kernel}
    (hw : Waitpid t.kernel (.process pid) .wnohang .nothing k') : s.ForkedSince t pid := by
  cases hw with
  | nothing _ hsome =>
    obtain ⟨q, c, hslot, rfl⟩ := hsome
    exact h.forkedSince_of_slot hslot

/-- The hands that a pid has to be in to be announced or taken out of the map. -/
theorem BornAs.not_handled (h : BornAs s t) {c : ChildProcess}
    (hc : s.observer.children pid = some c) (hnot : ¬ s.ForkedSince t pid) :
    ¬ (t.InHand pid ∨ ∃ d, t.InsideAdd d ∧ d.pid = pid) := by
  rintro (hin | ⟨d, hin, rfl⟩)
  · exact hnot (h.hand pid hin)
  · rcases h.window d hin with hnone | hforked
    · cases hnone.symm.trans hc
    · exact hnot hforked

/-- A child whose `add` has left it in the map was found alive. -/
theorem ObserverStep.insideAdd_kept {c : ChildProcess} (h : ObserverStep t l t')
    (hin : t.InsideAdd c) (hmap : t'.observer.children c.pid = some c) :
    t'.InsideAdd c ∨ ∃ k', Waitpid t.kernel (.process c.pid) .wnohang .nothing k' := by
  cases h with
  | kernel | callOnSigChild | onSigChild | waitFor => exact .inl hin
  | callAdd hidle => exact .inl (exists_update_of_none hin hidle)
  | @add i pc al k' o' pc' hpc hadd =>
    by_cases halive : Waitpid t.kernel (.process c.pid) .wnohang .nothing k'
    · exact .inr ⟨k', halive⟩
    · exact .inl (hin.addStep hpc hadd hmap fun _ _ => halive)

/-- What is in the map was there before, or is in the hands of the `add` that has inserted it. -/
theorem ObserverStep.children_cases {c : ChildProcess} (h : ObserverStep t l t')
    (hc : t'.observer.children pid = some c) :
    t.observer.children pid = some c ∨ t'.InsideAdd c := by
  cases h with
  | kernel | callAdd | callOnSigChild | waitFor => exact .inl hc
  | @add i pc al k' o' pc' hpc hadd =>
    rcases hadd.children hc with hold | ⟨-, -, rfl⟩
    · exact .inl hold
    · exact .inr ⟨i, _, Function.update_self .., rfl⟩
  | onSigChild hpc hosc => exact .inl (hosc.children hc)

theorem Observer.announcements_emit_self (o : Observer) (c : ChildProcess) :
    (o.emit c).announcements c.pid = o.announcements c.pid + 1 := by
  show (o.died ++ [c]).countP _ = _
  rw [List.countP_append, List.countP_singleton, if_pos (decide_eq_true rfl)]
  rfl

/-- Announcements are not taken back. -/
theorem ObserverStep.announcements_mono (h : ObserverStep t l t') (pid : Nat) :
    t.observer.announcements pid ≤ t'.observer.announcements pid := by
  have hemit : ∀ c, t.observer.announcements pid ≤ (t.observer.emit c).announcements pid := by
    intro c
    show t.observer.died.countP _ ≤ (t.observer.died ++ [c]).countP _
    rw [List.countP_append]
    exact Nat.le_add_right ..
  cases h with
  | kernel | callAdd | callOnSigChild | waitFor => exact le_rfl
  | add hpc hadd =>
    cases hadd with
    | emit => exact hemit _
    | _ => exact le_rfl
  | onSigChild hpc hosc =>
    cases hosc with
    | emit => exact hemit _
    | _ => exact le_rfl

/-- A call of `add` that stands somewhere stood there before, has just begun, or has come there
by a step of its own. -/
theorem ObserverStep.adding_cases {i : Nat} {pc : AddPc} (h : ObserverStep t l t')
    (hi : t'.adding i = some pc) :
    t.adding i = some pc ∨ (∃ c, pc = .start c) ∨
      ∃ pc₀ al k' o', t.adding i = some pc₀ ∧
        AddStep i t.kernel t.observer pc₀ al k' o' (some pc) ∧ t'.observer = o' := by
  cases h with
  | kernel | callOnSigChild | onSigChild | waitFor => exact .inl hi
  | callAdd =>
    rcases update_cases hi with ⟨-, ⟨⟩⟩ | ⟨-, hold⟩
    · exact .inr (.inl ⟨_, rfl⟩)
    · exact .inl hold
  | add hpc hadd =>
    rcases update_cases hi with ⟨rfl, rfl⟩ | ⟨-, hold⟩
    · exact .inr (.inr ⟨_, _, _, _, hpc, hadd, rfl⟩)
    · exact .inl hold

/-- What an `add` finds in the map under the pid of a child of another process is inherited. -/
theorem BornAs.forkedSince_of_present (h : BornAs s t) {i : Nat} {c d : ChildProcess}
    (hi : t.adding i = some (.locked c)) (hd : t.observer.children c.pid = some d)
    (hnone : s.observer.children c.pid = none) : s.ForkedSince t c.pid := by
  rcases h.own c.pid d hd with hold | ⟨j, pc, hj, hwin⟩ | hforked
  · cases hnone.symm.trans hold
  · -- the mutex keeps two calls from being that far
    have hcrit : pc.critical = true := by
      cases pc <;> first | rfl | cases hwin
    obtain rfl : j = i := h.guarded.add_unique hi rfl hj hcrit
    cases hi.symm.trans hj
    cases hwin
  · exact hforked

theorem BornAs.step (h : BornAs s t) (hstep : ObserverStep t l t') : BornAs s t' where
  sound := h.sound.step hstep
  guarded := h.guarded.step hstep
  reaped serial hlt := hstep.reaped (h.reaped serial hlt)
  kept pid c hc hnot := by
    have hnot' : ¬ s.ForkedSince t pid := fun hforked => hnot (hforked.step hstep)
    have hfree := h.not_handled hc hnot'
    obtain ⟨hmap, hcount⟩ := h.kept pid c hc hnot'
    constructor
    · exact (hstep.children_kept hmap).resolve_right hfree
    · exact ((hstep.announcements_cases h.sound pid).resolve_right hfree).trans hcount
  hand pid hin := by
    rcases hstep.inHand_cases hin with hold | ⟨⟨c, hslot, -⟩, -⟩
    · exact (h.hand pid hold).step hstep
    · exact (h.forkedSince_of_slot hslot).step hstep
  window c hin := by
    rcases hstep.insideAdd_cases hin with hold | hnone
    · exact (h.window c hold).imp_right fun hforked => hforked.step hstep
    · -- it was inserted just now, so it was not in the map
      by_cases hforked : s.ForkedSince t c.pid
      · exact .inr (hforked.step hstep)
      · left
        by_contra hsome
        obtain ⟨d, hd⟩ := Option.ne_none_iff_exists'.mp hsome
        cases hnone.symm.trans (h.kept c.pid d hd hforked).1
  own pid c hc := by
    rcases hstep.children_cases hc with hold | hin
    · rcases h.own pid c hold with hinherited | hin | hforked
      · exact .inl hinherited
      · obtain ⟨rfl, -⟩ := h.sound.mapped pid c hold
        rcases hstep.insideAdd_kept hin hc with hkept | ⟨k', hw⟩
        · exact .inr (.inl hkept)
        · exact .inr (.inr ((h.forkedSince_of_alive hw).step hstep))
      · exact .inr (.inr (hforked.step hstep))
    · exact .inr (.inl hin)
  added i c hi := by
    rcases hstep.adding_cases hi with hold | ⟨d, ⟨⟩⟩ | ⟨pc, al, k', o', hpc, hadd, -⟩
    · exact (h.added i c hold).step hstep
    · cases hadd with
      | alive hw => exact (h.forkedSince_of_alive hw).step hstep
  announced pid := (h.announced pid).trans (hstep.announcements_mono pid)
  emitted i c hi := by
    have hmono := hstep.announcements_mono c.pid
    rcases hstep.adding_cases hi with hold | ⟨d, ⟨⟩⟩ | ⟨pc, al, k', o', hpc, hadd, ho⟩
    · exact (h.emitted i c hold).trans_le hmono
    · cases hadd with
      | emit =>
        rw [ho, Observer.announcements_emit_self]
        exact Nat.lt_succ_of_le (h.announced c.pid)
  refused i c hi hnone := by
    have hmono := hstep.announcements_mono c.pid
    rcases hstep.adding_cases hi with hold | ⟨d, ⟨⟩⟩ | ⟨pc, al, k', o', hpc, hadd, -⟩
    · rcases h.refused i c hold hnone with hforked | hlt
      · exact .inl (hforked.step hstep)
      · exact .inr (hlt.trans_le hmono)
    · cases hadd with
      | present hold => exact .inl ((h.forkedSince_of_present hpc hold hnone).step hstep)
      | erase => exact .inr ((h.emitted i c hpc).trans_le hmono)

end

/-! ## Trees of processes -/

/-- **A process watches its own children only**: take any process of any tree, with any threads
inside the observers of all of them, let it fork, and let all of them go on. As long as the new
process has not itself forked a child with that pid,

- a child that was in the map it has inherited stays there and is never announced;
- no other child is in its map, except in the hands of an `add`;
- every `add` of another child returns `false`, and by then the process has announced the child,
  unless it was in the inherited map. -/
theorem watches_own_children_only (k : Kernel) (hk : k.Fresh) (root : Nat)
    (ls : List (ProcessKind.Label ObserverLabel Unit)) (F : ProcessKind.Family Unit ObserverState)
    (h : observerKind.system.Run (.start () root (.start k .initial)) ls F)
    (p q : Nat) (s : ObserverState) (hp : F.procs p = some s)
    (F₁ : ProcessKind.Family Unit ObserverState) (hfork : observerKind.Step F (.fork p q ()) F₁)
    (ls' : List (ProcessKind.Label ObserverLabel Unit)) (F' : ProcessKind.Family Unit ObserverState)
    (h' : observerKind.system.Run F₁ ls' F') :
    ∃ t, F'.procs q = some t ∧
      (∀ pid c, s.observer.children pid = some c → ¬ s.ForkedSince t pid →
        t.observer.children pid = some c ∧
          t.observer.announcements pid = s.observer.announcements pid) ∧
      (∀ pid c, t.observer.children pid = some c → ¬ s.ForkedSince t pid →
        s.observer.children pid = some c ∨ t.InsideAdd c) ∧
      ∀ i c result, t.adding i = some (.leaving c result) → ¬ s.ForkedSince t c.pid →
        result = false ∧ (s.observer.children c.pid = none →
          s.observer.announcements c.pid < t.observer.announcements c.pid) := by
  have hsound : F.Forall ObserverState.Sound := by
    refine ProcessKind.forall_procs (K := observerKind) (fun _ _ _ _ _ hstep hs => hs.step hstep)
      ?_ h (ProcessKind.Family.forall_start (.start hk))
    rintro m who m' rfl hm
    exact hm.forkedCopy
  have hcopy : ∃ t, F₁.procs q = some t ∧ BornAs s t := by
    cases hfork with
    | fork hp' hnew heq =>
      cases hp.symm.trans hp'
      cases heq
      exact ⟨_, Function.update_self .., .forkedCopy (hsound p s hp)⟩
  obtain ⟨t, ht, hborn⟩ := ProcessKind.keeps (K := observerKind)
    (fun _ _ _ _ _ hstep hs => hs.step hstep) h' hcopy
  refine ⟨t, ht, hborn.kept, fun pid c hc hnot => ?_, fun i c result hi hnot => ?_⟩
  · rcases hborn.own pid c hc with hold | hin | hforked
    · exact .inl hold
    · exact .inr hin
    · exact absurd hforked hnot
  · cases result with
    | true => exact absurd (hborn.added i c hi) hnot
    | false => exact ⟨rfl, fun hnone => (hborn.refused i c hi hnone).resolve_left hnot⟩

/-- A process has two children and watches the first. -/
def watchesOneOfTwo : List (ProcessKind.Label ObserverLabel Unit) :=
  [.proc 2 (.kernel (.fork 7)), .proc 2 (.callAdd 0 (.forked 7 0)), .proc 2 (.add 0 .lock),
    .proc 2 (.add 0 .insert), .proc 2 (.add 0 (.wait .nothing)), .proc 2 (.add 0 (.ret true)),
    .proc 2 (.kernel (.fork 8))]

/-- The process it forks is asked to watch the second. -/
def watchesSibling : List (ProcessKind.Label ObserverLabel Unit) :=
  [.proc 9 (.callAdd 0 (.forked 8 1)), .proc 9 (.add 0 .lock), .proc 9 (.add 0 .insert),
    .proc 9 (.add 0 (.wait (.failed .echild))), .proc 9 (.add 0 .emit), .proc 9 (.add 0 .erase)]

theorem watchesSibling_run :
    ∃ F s F₁ F' t,
      observerKind.system.Run (.start () 2 (.start .initOnly .initial)) watchesOneOfTwo F ∧
      F.procs 2 = some s ∧ s.observer.children 7 = some (.forked 7 0) ∧
      s.observer.children 8 = none ∧ s.kernel.slots 8 = .child ⟨1, true, .running⟩ ∧
      s.observer.died = [] ∧ observerKind.Step F (.fork 2 9 ()) F₁ ∧
      observerKind.system.Run F₁ watchesSibling F' ∧ F'.procs 9 = some t ∧
      (∀ pid, ¬ s.ForkedSince t pid) ∧ t.adding 0 = some (.leaving (.forked 8 1) false) := by
  have hrunning : ∀ pid c t, (Kernel.initOnly.fork 7).slots pid = .child c →
      (WaitTarget.process 7).Selects pid c → c.phase ≠ .zombie t := by
    rintro _ c t hslot rfl
    cases hslot
    exact nofun
  open ProcessKind in
  refine ⟨_, _, _, _, _, .cons (Step.alone rfl (.kernel (.fork (by decide) rfl))) <|
    .cons (Step.alone rfl (.callAdd rfl rfl)) <|
    .cons (Step.alone rfl (.add rfl (.lock (by decide) rfl))) <|
    .cons (Step.alone rfl (.add rfl (.insert rfl))) <|
    .cons (Step.alone rfl (.add rfl (.alive (.nothing rfl ⟨7, _, rfl, rfl⟩ hrunning)))) <|
    .cons (Step.alone rfl (.add rfl .unlock)) <|
    .cons (Step.alone rfl (.kernel (.fork (by decide) rfl))) (.nil _),
    rfl, rfl, rfl, rfl, rfl, .fork rfl rfl rfl,
    .cons (Step.alone rfl (.callAdd rfl rfl)) <|
    .cons (Step.alone rfl (.add rfl (.lock (by decide) rfl))) <|
    .cons (Step.alone rfl (.add rfl (.insert rfl))) <|
    .cons (Step.alone rfl (.add rfl (.gone (.noChild fun _ c hslot => ?_) nofun))) <|
    .cons (Step.alone rfl (.add rfl .emit)) <| .cons (Step.alone rfl (.add rfl .erase)) (.nil _),
    rfl, ?_, rfl⟩
  · exact absurd hslot (seenByChild_slots c)
  · rintro pid ⟨serial, hle, hfork⟩
    exact absurd (List.getElem?_eq_some_iff.mp hfork).1 (Nat.not_lt.mpr hle)

/-- The sibling that still runs is announced, the one that was inherited is not. -/
theorem watches_own_children_only_watchesSibling :
    ∃ F s F₁ F' t,
      observerKind.system.Run (.start () 2 (.start .initOnly .initial)) watchesOneOfTwo F ∧
      observerKind.Step F (.fork 2 9 ()) F₁ ∧ observerKind.system.Run F₁ watchesSibling F' ∧
      F.procs 2 = some s ∧ s.kernel.slots 8 = .child ⟨1, true, .running⟩ ∧
      F'.procs 9 = some t ∧ t.observer.children 7 = some (.forked 7 0) ∧
      t.observer.announcements 7 = 0 ∧ 0 < t.observer.announcements 8 := by
  obtain ⟨F, s, F₁, F', t, hrun, hp, hmap, hnone, hslot, hdied, hfork, hrun', hq, hnot, hi⟩ :=
    watchesSibling_run
  obtain ⟨t', ht', hkept, -, hadds⟩ := watches_own_children_only .initOnly Kernel.initOnly_fresh 2
    watchesOneOfTwo F hrun 2 9 s hp F₁ hfork watchesSibling F' hrun'
  cases hq.symm.trans ht'
  have hzero : ∀ pid, s.observer.announcements pid = 0 := by
    intro pid
    rw [Observer.announcements, hdied]
    rfl
  obtain ⟨hstays, hcount⟩ := hkept 7 _ hmap (hnot 7)
  have hannounced := (hadds 0 _ _ hi (hnot 8)).2 hnone
  refine ⟨F, s, F₁, F', t, hrun, hfork, hrun', hp, hslot, hq, hstays, hcount.trans (hzero 7), ?_⟩
  exact (hzero 8) ▸ hannounced

end ProcessCpp.Core
