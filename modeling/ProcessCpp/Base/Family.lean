import ProcessCpp.Base.Prelude
import ProcessCpp.Base.Transition

/-!
# Families of processes that fork

A fork copies the memory of a process, and with it every flag and every lock in the state it
is in, but of all threads only the one that called it. What a thread had claimed, and would
have given back, is claimed for good in the copy.

- `ProcessKind`: what one kind of process does on its own memory and on what all processes
  have in common, and what a fork makes of a memory;
- `ProcessKind.Family`, `ProcessKind.system`: a tree of such processes;
- `ProcessKind.forall_procs`: what steps and forks keep holds in every process;
- `ProcessKind.keeps`: what the steps of a process keep holds of it ever after;
- `ProcessKind.stays`: what the steps of a process keep, and its forks pass on, holds of it
  and of its children ever after;
- `ProcessKind.noneSpoiled_iff`: if a process is spoiled by the bad steps and born spoiled by
  the bad forks, and spoiled for good, then no process of a run is spoiled exactly when the
  run has no bad steps and no bad forks.
-/

namespace ProcessCpp.Base

/-- A kind of process: `γ` is what all processes share, `μ` the memory of one, with its
threads, and `β` says who forks. -/
structure ProcessKind (γ μ α β : Type) where
  step : γ → μ → α → γ → μ → Prop
  fork : μ → β → μ → Prop

namespace ProcessKind

variable {γ μ α β : Type}

/-- The processes by pid; no pid is given out twice. -/
structure Family (γ μ : Type) where
  common : γ
  procs : Nat → Option μ

inductive Label (α β : Type) where
  | proc (p : Nat) (l : α)
  | fork (p child : Nat) (who : β)
deriving DecidableEq

/-- A step of one process, or a fork. -/
inductive Step (K : ProcessKind γ μ α β) (F : Family γ μ) : Label α β → Family γ μ → Prop where
  | proc {p m l g' m'} (hp : F.procs p = some m) (h : K.step F.common m l g' m') :
      Step K F (.proc p l) ⟨g', Function.update F.procs p (some m')⟩
  | fork {p child who m m'} (hp : F.procs p = some m) (hnew : F.procs child = none)
      (h : K.fork m who m') :
      Step K F (.fork p child who) { F with procs := Function.update F.procs child (some m') }

def system (K : ProcessKind γ μ α β) : LTS (Family γ μ) (Label α β) where
  step := K.Step

/-- One process. -/
def Family.start (g : γ) (root : Nat) (m : μ) : Family γ μ :=
  ⟨g, Function.update (fun _ => none) root (some m)⟩

/-- All processes there have been. -/
def Family.Forall (P : μ → Prop) (F : Family γ μ) : Prop := ∀ p m, F.procs p = some m → P m

theorem Family.forall_start {P : μ → Prop} {g : γ} {root : Nat} {m : μ} (h : P m) :
    (Family.start g root m).Forall P := by
  refine forall_update nofun ?_
  rintro _ ⟨⟩
  exact h

variable {K : ProcessKind γ μ α β} {F F' : Family γ μ} {l : Label α β} {ls : List (Label α β)}

/-- A step of a process that has nothing in common with the others. -/
theorem Step.alone {K : ProcessKind Unit μ α β} {F : Family Unit μ} {p : Nat} {m m' : μ} {l : α}
    (hp : F.procs p = some m) (h : K.step () m l () m') :
    K.Step F (.proc p l) ⟨(), Function.update F.procs p (some m')⟩ :=
  .proc hp h

/-! ## What every process keeps -/

/-- What the steps of a process keep holds of it ever after, whoever forks. -/
theorem Step.keeps {P : μ → Prop} (hstep : ∀ g m l g' m', K.step g m l g' m' → P m → P m')
    {p : Nat} (h : K.Step F l F') (hp : ∃ m, F.procs p = some m ∧ P m) :
    ∃ m, F'.procs p = some m ∧ P m := by
  obtain ⟨m, hm, hPm⟩ := hp
  cases h with
  | @proc q n al g' n' hq h =>
    by_cases hpq : p = q
    · subst hpq
      cases hm.symm.trans hq
      exact ⟨n', Function.update_self .., hstep _ _ _ _ _ h hPm⟩
    · exact ⟨m, (Function.update_of_ne hpq ..).trans hm, hPm⟩
  | @fork q child who n n' hq hnew h =>
    have hne : p ≠ child := by
      rintro rfl
      cases hm.symm.trans hnew
    exact ⟨m, (Function.update_of_ne hne ..).trans hm, hPm⟩

theorem keeps {P : μ → Prop} (hstep : ∀ g m l g' m', K.step g m l g' m' → P m → P m') {p : Nat}
    (h : K.system.Run F ls F') (hp : ∃ m, F.procs p = some m ∧ P m) :
    ∃ m, F'.procs p = some m ∧ P m :=
  h.invariant (P := fun G => ∃ m, G.procs p = some m ∧ P m)
    (fun _ _ _ hxy hx => Step.keeps hstep hxy hx) hp

section Keeps

variable {P : μ → Prop} (hstep : ∀ g m l g' m', K.step g m l g' m' → P m → P m')
  (hfork : ∀ m who m', K.fork m who m' → P m → P m')

include hstep hfork

theorem Step.forall_procs (h : K.Step F l F') (hF : F.Forall P) : F'.Forall P := by
  cases h with
  | proc hp h =>
    refine forall_update (fun q m _ hq => hF q m hq) ?_
    rintro _ ⟨⟩
    exact hstep _ _ _ _ _ h (hF _ _ hp)
  | fork hp hnew h =>
    refine forall_update (fun q m _ hq => hF q m hq) ?_
    rintro _ ⟨⟩
    exact hfork _ _ _ h (hF _ _ hp)

theorem forall_procs (h : K.system.Run F ls F') (hF : F.Forall P) : F'.Forall P :=
  h.invariant (P := Family.Forall P)
    (fun _ _ _ hxy hx => Step.forall_procs hstep hfork hxy hx) hF

/-- The same for one process and the children it forks. -/
theorem Step.stays {p : Nat} (h : K.Step F l F') (hp : ∃ m, F.procs p = some m ∧ P m) :
    (∃ m, F'.procs p = some m ∧ P m) ∧
      ∀ child who, l = .fork p child who → ∃ m, F'.procs child = some m ∧ P m := by
  refine ⟨Step.keeps hstep h hp, ?_⟩
  rintro child who rfl
  obtain ⟨m, hm, hPm⟩ := hp
  cases h with
  | @fork q child who n n' hq hnew h =>
    cases hm.symm.trans hq
    exact ⟨n', Function.update_self .., hfork _ _ _ h hPm⟩

/-- What the steps of a process keep and its forks pass on stays, and steps that are
impossible meanwhile are not taken. -/
theorem stays {Never : α → Prop} (hnever : ∀ g m l g' m', K.step g m l g' m' → P m → ¬ Never l)
    {p : Nat} (h : K.system.Run F ls F') (hp : ∃ m, F.procs p = some m ∧ P m) :
    (∃ m, F'.procs p = some m ∧ P m) ∧ (∀ l, .proc p l ∈ ls → ¬ Never l) ∧
      ∀ child who, .fork p child who ∈ ls → ∃ m, F'.procs child = some m ∧ P m := by
  induction h with
  | nil =>
    exact ⟨hp, fun _ hmem => absurd hmem List.not_mem_nil,
      fun _ _ hmem => absurd hmem List.not_mem_nil⟩
  | @cons x y z a as hxy hrest ih =>
    obtain ⟨hnext, hchild⟩ := Step.stays hstep hfork hxy hp
    obtain ⟨hlast, hnone, hforks⟩ := ih hnext
    refine ⟨hlast, fun al hmem => ?_, fun child who hmem => ?_⟩
    · rcases List.mem_cons.mp hmem with rfl | hmem
      · obtain ⟨m, hm, hPm⟩ := hp
        cases hxy with
        | proc hq hstep' =>
          cases hm.symm.trans hq
          exact hnever _ _ _ _ _ hstep' hPm
      · exact hnone al hmem
    · rcases List.mem_cons.mp hmem with heq | hmem
      · exact keeps hstep hrest (hchild child who heq.symm)
      · exact hforks child who hmem

end Keeps

/-! ## Processes that are spoiled -/

section Spoiled

/-- The step or the fork is not a bad one. -/
def Careful (badStep : μ → α → Prop) (badFork : μ → β → Prop) (F : Family γ μ) :
    Label α β → Prop
  | .proc p l => ∀ m, F.procs p = some m → ¬ badStep m l
  | .fork p _ who => ∀ m, F.procs p = some m → ¬ badFork m who

variable {I Spoiled : μ → Prop} {badStep : μ → α → Prop} {badFork : μ → β → Prop}

variable (hI : ∀ g m l g' m', K.step g m l g' m' → I m → I m')
  (hIfork : ∀ m who m', K.fork m who m' → I m → I m')
  (hstep : ∀ g m l g' m', K.step g m l g' m' → I m → (Spoiled m' ↔ Spoiled m ∨ badStep m l))
  (hfork : ∀ m who m', K.fork m who m' → I m → ¬ Spoiled m → (Spoiled m' ↔ badFork m who))

include hstep hfork

theorem Step.noneSpoiled_iff (h : K.Step F l F') (hF : F.Forall I) :
    F'.Forall (fun m => ¬ Spoiled m) ↔
      F.Forall (fun m => ¬ Spoiled m) ∧ Careful badStep badFork F l := by
  cases h with
  | @proc p m al g' m' hp h =>
    have hm := hstep _ _ _ _ _ h (hF p m hp)
    constructor
    · intro hnone
      have hnow : ¬ (Spoiled m ∨ badStep m al) := by
        rw [← hm]
        exact hnone p m' (Function.update_self ..)
      rw [not_or] at hnow
      refine ⟨fun q n hq => ?_, fun n hn => ?_⟩
      · by_cases hqp : q = p
        · subst hqp
          cases hp.symm.trans hq
          exact hnow.1
        · exact hnone q n ((Function.update_of_ne hqp ..).trans hq)
      · cases hp.symm.trans hn
        exact hnow.2
    · rintro ⟨hnone, hcareful⟩
      refine forall_update (fun q n _ hq => hnone q n hq) ?_
      rintro _ ⟨⟩
      rw [hm, not_or]
      exact ⟨hnone p m hp, hcareful m hp⟩
  | @fork p child who m m' hp hnew h =>
    constructor
    · intro hnone
      -- the fork changes none of those that were there
      have hold : F.Forall fun m => ¬ Spoiled m := by
        intro q n hq
        have hne : q ≠ child := by
          rintro rfl
          cases hq.symm.trans hnew
        exact hnone q n ((Function.update_of_ne hne ..).trans hq)
      refine ⟨hold, fun n hn => ?_⟩
      cases hp.symm.trans hn
      rw [← hfork _ _ _ h (hF p m hp) (hold p m hp)]
      exact hnone child m' (Function.update_self ..)
    · rintro ⟨hnone, hcareful⟩
      refine forall_update (fun q n _ hq => hnone q n hq) ?_
      rintro _ ⟨⟩
      rw [hfork _ _ _ h (hF p m hp) (hnone p m hp)]
      exact hcareful m hp

include hI hIfork

/-- No process of a run is spoiled exactly when all its steps and forks are careful. -/
theorem noneSpoiled_iff (h : K.system.Run F ls F') (hF : F.Forall I)
    (hfine : F.Forall fun m => ¬ Spoiled m) :
    F'.Forall (fun m => ¬ Spoiled m) ↔
      (K.system.restrict (Careful badStep badFork)).Run F ls F' :=
  h.good_iff_restrict (Q := Family.Forall I)
    (fun _ _ _ hxy hx => Step.forall_procs hI hIfork hxy hx)
    (fun _ _ _ hxy hx => Step.noneSpoiled_iff hstep hfork hxy hx) hF hfine

end Spoiled

end ProcessKind

end ProcessCpp.Base
