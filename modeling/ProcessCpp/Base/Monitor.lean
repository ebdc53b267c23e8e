import ProcessCpp.Base.Family

/-!
# A value behind a mutex, in processes that fork

Operations on a value that take several steps each, all under one mutex. Any number of
threads call them, and the process may fork: the new process has a copy of the value *and
of the mutex*, and of all threads only the one that forked.

- `Monitor`: the operations; `Monitor.Steps`, `Exec`, `Serial`: one operation alone, and
  operations one after the other;
- `Monitor.Proc`, `Monitor.Step`, `Monitor.kind`: a process with threads, one action at a
  time, as a kind of process. An operation may run code of its caller while it holds the
  mutex (`callback`), and that code may fork, or call another operation and wait for itself
  forever;
- `Monitor.serial_of_run`: the value of each process is what the completed operations on its
  line of descent make of it, one after the other, with the results they had;
- `Monitor.completes_iff`: a waiting call can complete exactly when the mutex is free or its
  holder is a thread that will release it;
- `Monitor.allReleasable_iff`: that is so in all processes exactly when every fork found the
  mutex free and no callback called an operation.
-/

namespace ProcessCpp.Base

/-- Operations on a value of type `σ`, in steps. -/
structure Monitor (σ Op Res Loc : Type) where
  /-- where an operation begins -/
  start : Op → Loc
  step : σ → Loc → σ → Loc → Prop
  /-- the result of an operation that is at its end -/
  result : Loc → Option Res
  /-- the operation is inside code of its caller -/
  callback : Loc → Prop

namespace Monitor

variable {σ Op Res Loc : Type}

/-! ## Operations alone -/

section Alone

variable (M : Monitor σ Op Res Loc)

/-- Steps of one operation, without anybody else. -/
inductive Steps (v : σ) (l : Loc) : σ → Loc → Prop where
  | refl : Steps v l v l
  | tail {v' v'' l' l''} : Steps v l v' l' → M.step v' l' v'' l'' → Steps v l v'' l''

/-- An operation from its beginning to its end. -/
def Exec (v : σ) (op : Op) (r : Res) (v' : σ) : Prop :=
  ∃ l, M.Steps v (M.start op) v' l ∧ M.result l = some r

/-- Operations one after the other, with their results. -/
inductive Serial (v : σ) : List (Op × Res) → σ → Prop where
  | nil : Serial v [] v
  | snoc {ops v' op r v''} : Serial v ops v' → M.Exec v' op r v'' →
      Serial v (ops ++ [(op, r)]) v''

/-- From here an operation can come to its end. -/
def CanFinish (v : σ) (l : Loc) : Prop :=
  ∃ v' l' r, M.Steps v l v' l' ∧ M.result l' = some r

/-- Every operation that has begun can come to its end. -/
def Finishes : Prop := ∀ v op v' l, M.Steps v (M.start op) v' l → M.CanFinish v' l

variable {M}

theorem Steps.append {v v' v'' : σ} {l l' l'' : Loc} (h : M.Steps v l v' l')
    (h' : M.Steps v' l' v'' l'') : M.Steps v l v'' l'' := by
  induction h' with
  | refl => exact h
  | tail _ hstep ih => exact ih.tail hstep

theorem CanFinish.of_result {v : σ} {l : Loc} {r : Res} (h : M.result l = some r) :
    M.CanFinish v l :=
  ⟨v, l, r, .refl, h⟩

theorem CanFinish.of_step {v v' : σ} {l l' : Loc} (hstep : M.step v l v' l')
    (h : M.CanFinish v' l') : M.CanFinish v l := by
  obtain ⟨v'', l'', r, hsteps, hr⟩ := h
  exact ⟨v'', l'', r, (Steps.tail .refl hstep).append hsteps, hr⟩

end Alone

/-! ## Threads and processes -/

/-- Where a thread stands. -/
inductive Pc (Op Loc : Type) where
  /-- at the `lock` of an operation -/
  | waiting (op : Op)
  | inside (op : Op) (l : Loc)
  /-- at a `lock` of the mutex that the thread itself holds -/
  | stuck
  /-- in a process forked from inside a callback: the thread holds the mutex and will never
  come back to the operation -/
  | captive

/-- A process: its copy of the value and of the mutex, and its threads. -/
structure Proc (σ Op Res Loc : Type) where
  value : σ
  guard : Option Nat
  threads : Nat → Option (Pc Op Loc)
  /-- history: the operations completed on this memory or on what it was copied from -/
  done : List (Op × Res)
  ended : Bool

namespace Proc

/-- No operation has been called. -/
def start (v : σ) : Proc σ Op Res Loc := ⟨v, none, fun _ => none, [], false⟩

/-- Thread `t` moves. -/
def move (s : Proc σ Op Res Loc) (t : Nat) (pc : Option (Pc Op Loc)) : Proc σ Op Res Loc :=
  { s with threads := Function.update s.threads t pc }

/-- The copy in which only the thread that forked goes on. -/
def forked (s : Proc σ Op Res Loc) (t : Nat) : Proc σ Op Res Loc :=
  { s with threads := Function.update (fun _ => none) t ((s.threads t).map fun _ => .captive) }

end Proc

inductive Label (Op : Type) where
  | call (t : Nat) (op : Op)
  | lock (t : Nat)
  | step (t : Nat)
  | unlock (t : Nat)
  /-- a call from inside a callback -/
  | callBack (t : Nat) (op : Op)
  | exit
deriving DecidableEq

variable (M : Monitor σ Op Res Loc)

/-- A step of one thread, or the end of the process. -/
inductive Step (s : Proc σ Op Res Loc) : Label Op → Proc σ Op Res Loc → Prop where
  | call {t op} (hidle : s.threads t = none) : Step s (.call t op) (s.move t (some (.waiting op)))
  | lock {t op} (hpc : s.threads t = some (.waiting op)) (hfree : s.guard = none) :
      Step s (.lock t) { s.move t (some (.inside op (M.start op))) with guard := some t }
  | step {t op l v' l'} (hpc : s.threads t = some (.inside op l)) (h : M.step s.value l v' l') :
      Step s (.step t) { s.move t (some (.inside op l')) with value := v' }
  | unlock {t op l r} (hpc : s.threads t = some (.inside op l)) (hr : M.result l = some r) :
      Step s (.unlock t) { s.move t none with guard := none, done := s.done ++ [(op, r)] }
  | callBack {t op l op'} (hpc : s.threads t = some (.inside op l)) (hc : M.callback l) :
      Step s (.callBack t op') (s.move t (some .stuck))
  | captiveCall {t op'} (hpc : s.threads t = some .captive) :
      Step s (.callBack t op') (s.move t (some .stuck))
  | exit : Step s .exit { s with ended := true }

/-- A process until it ends. -/
def procSystem : LTS (Proc σ Op Res Loc) (Label Op) where
  step s l s' := M.Step s l s' ∧ s.ended = false

/-- The thread is in code of the user, where it may fork. -/
def InUser (s : Proc σ Op Res Loc) (t : Nat) : Prop :=
  s.threads t = none ∨ s.threads t = some .captive ∨
    ∃ op l, s.threads t = some (.inside op l) ∧ M.callback l

/-- The processes have nothing in common but where they come from. -/
def kind : ProcessKind Unit (Proc σ Op Res Loc) (Label Op) Nat where
  step _ s l _ s' := M.procSystem.step s l s'
  fork s t s' := s.ended = false ∧ M.InUser s t ∧ s' = s.forked t

/-- One process. -/
def family (root : Nat) (v : σ) : ProcessKind.Family Unit (Proc σ Op Res Loc) :=
  .start () root (.start v)

/-! ## One operation at a time -/

/-- The thread has the mutex. -/
def Pc.Holds : Pc Op Loc → Prop
  | .waiting _ => False
  | .inside _ _ | .stuck | .captive => True

/-- What holds of every process: whoever is past `lock` has the mutex, and the value is what
the completed operations left, as far as the operation that is going on has not changed it. -/
structure Ok (v₀ : σ) (s : Proc σ Op Res Loc) : Prop where
  holder : ∀ t pc, s.threads t = some pc → pc.Holds → s.guard = some t
  explained : ∃ v, M.Serial v₀ s.done v ∧ (s.guard = none → s.value = v) ∧
    ∀ t op l, s.threads t = some (.inside op l) → M.Steps v (M.start op) s.value l

variable {M} {v₀ : σ} {s s' : Proc σ Op Res Loc} {t : Nat} {l : Label Op}

theorem ok_start (M : Monitor σ Op Res Loc) (v : σ) : M.Ok v (.start v) :=
  ⟨nofun, v, .nil, fun _ => rfl, nofun⟩

/-- No two threads are past `lock`. -/
theorem Ok.holder_unique (h : M.Ok v₀ s) {t t' : Nat} {pc pc' : Pc Op Loc}
    (ht : s.threads t = some pc) (ht' : s.threads t' = some pc') (hpc : pc.Holds)
    (hpc' : pc'.Holds) : t = t' := by
  have hguard := h.holder t pc ht hpc
  rw [h.holder t' pc' ht' hpc'] at hguard
  exact (Option.some.inj hguard).symm

/-- While one thread is past `lock`, whatever is found past it is that thread. -/
theorem Ok.moved_inside (h : M.Ok v₀ s) {pc pc' : Pc Op Loc} {next : Option (Pc Op Loc)}
    (ht : s.threads t = some pc) (hpc : pc.Holds) {t' : Nat}
    (ht' : (s.move t next).threads t' = some pc') (hpc' : pc'.Holds) :
    t' = t ∧ next = some pc' := by
  rcases update_cases ht' with ⟨rfl, hnext⟩ | ⟨hne, hold⟩
  · exact ⟨rfl, hnext⟩
  · exact absurd (h.holder_unique hold ht hpc' hpc) hne

/-- A thread that is past `lock` and gets stuck takes nothing along. -/
theorem Ok.stuck (h : M.Ok v₀ s) {pc : Pc Op Loc} (hpc : s.threads t = some pc)
    (hholds : pc.Holds) : M.Ok v₀ (s.move t (some .stuck)) := by
  obtain ⟨v, hserial, hfree, -⟩ := h.explained
  refine ⟨fun t' pc' ht' hpc' => ?_, v, hserial, hfree, fun t' op l ht' => ?_⟩
  · obtain ⟨rfl, -⟩ := h.moved_inside hpc hholds ht' hpc'
    exact h.holder t' _ hpc hholds
  · obtain ⟨-, hnext⟩ := h.moved_inside hpc hholds ht' trivial
    cases hnext

theorem Ok.step (h : M.Ok v₀ s) (hstep : M.Step s l s') : M.Ok v₀ s' := by
  obtain ⟨v, hserial, hfree, hinside⟩ := h.explained
  cases hstep with
  | call hidle =>
    refine ⟨?_, v, hserial, hfree, ?_⟩
    · refine forall_update (fun t' pc _ ht' => h.holder t' pc ht') ?_
      rintro _ ⟨⟩ hpc
      exact hpc.elim
    · intro t' op l ht'
      rcases update_cases ht' with ⟨-, ⟨⟩⟩ | ⟨-, hold⟩
      exact hinside t' op l hold
  | lock hpc hnone =>
    -- nobody was inside, so the operation that begins finds what the last one left
    have hnobody : ∀ t' pc, s.threads t' = some pc → ¬ pc.Holds := by
      intro t' pc ht' hholds
      cases hnone.symm.trans (h.holder t' pc ht' hholds)
    refine ⟨?_, v, hserial, nofun, ?_⟩
    · intro t' pc ht' hholds
      rcases update_cases ht' with ⟨rfl, -⟩ | ⟨-, hold⟩
      · rfl
      · exact absurd hholds (hnobody t' pc hold)
    · intro t' op l ht'
      rcases update_cases ht' with ⟨-, ⟨⟩⟩ | ⟨-, hold⟩
      · rw [← hfree hnone]
        exact .refl
      · exact absurd trivial (hnobody t' _ hold)
  | step hpc hmicro =>
    refine ⟨fun t' pc ht' hholds => ?_, v, hserial, ?_, fun t' op l ht' => ?_⟩
    · obtain ⟨rfl, -⟩ := h.moved_inside hpc trivial ht' hholds
      exact h.holder t' _ hpc trivial
    · intro hnone
      cases hnone.symm.trans (h.holder _ _ hpc trivial)
    · obtain ⟨rfl, hnext⟩ := h.moved_inside hpc trivial ht' trivial
      cases hnext
      exact (hinside t' _ _ hpc).tail hmicro
  | unlock hpc hr =>
    refine ⟨fun t' pc ht' hholds => ?_, s.value, ?_, fun _ => rfl, fun t' op l ht' => ?_⟩
    · obtain ⟨-, hnext⟩ := h.moved_inside hpc trivial ht' hholds
      cases hnext
    · exact hserial.snoc ⟨_, hinside _ _ _ hpc, hr⟩
    · obtain ⟨-, hnext⟩ := h.moved_inside hpc trivial ht' trivial
      cases hnext
  | callBack hpc _ => exact h.stuck hpc trivial
  | captiveCall hpc => exact h.stuck hpc trivial
  | exit => exact ⟨h.holder, v, hserial, hfree, hinside⟩

/-- In a new process, the only thread past `lock` is one that forked from a callback. -/
theorem forked_threads {t' : Nat} {pc : Pc Op Loc} (h : (s.forked t).threads t' = some pc) :
    t' = t ∧ pc = .captive ∧ s.threads t ≠ none := by
  have h' : Function.update (fun _ => none) t ((s.threads t).map fun _ => .captive) t' = some pc :=
    h
  rcases update_cases h' with ⟨rfl, hpc⟩ | ⟨-, hnone⟩
  · obtain ⟨old, hold, rfl⟩ := Option.map_eq_some_iff.mp hpc
    refine ⟨rfl, rfl, ?_⟩
    rw [hold]
    exact nofun
  · cases hnone

theorem Ok.forked (h : M.Ok v₀ s) (huser : M.InUser s t) : M.Ok v₀ (s.forked t) := by
  obtain ⟨v, hserial, hfree, -⟩ := h.explained
  refine ⟨fun t' pc ht' _ => ?_, v, hserial, hfree, fun t' op l ht' => ?_⟩
  · obtain ⟨rfl, -, hsome⟩ := forked_threads ht'
    rcases huser with hnone | hcaptive | ⟨op, l, hinside, -⟩
    · exact absurd hnone hsome
    · exact h.holder t' _ hcaptive trivial
    · exact h.holder t' _ hinside trivial
  · obtain ⟨-, hpc, -⟩ := forked_threads ht'
    cases hpc

section Runs

variable {F : ProcessKind.Family Unit (Proc σ Op Res Loc)} {root p : Nat}
  {ls : List (ProcessKind.Label (Label Op) Nat)}

theorem ok_of_run (h : M.kind.system.Run (family root v₀) ls F) (hp : F.procs p = some s) :
    M.Ok v₀ s := by
  refine ProcessKind.forall_procs ?_ ?_ h (ProcessKind.Family.forall_start (M.ok_start v₀)) p s hp
  · exact fun _ _ _ _ _ hstep hx => hx.step hstep.1
  · rintro m who _ ⟨-, huser, rfl⟩ hx
    exact hx.forked huser

/-- The operations completed on the line of descent of a process explain its value, one
after the other. -/
theorem serial_of_run (h : M.kind.system.Run (family root v₀) ls F) (hp : F.procs p = some s) :
    ∃ v, M.Serial v₀ s.done v ∧ (s.guard = none → s.value = v) := by
  obtain ⟨v, hserial, hfree, -⟩ := (ok_of_run h hp).explained
  exact ⟨v, hserial, hfree⟩

end Runs

/-! ## Calls that can complete -/

/-- The mutex is free, or held by a thread that is on its way to releasing it. -/
def Releasable (s : Proc σ Op Res Loc) : Prop :=
  s.guard = none ∨ ∃ t op l, s.guard = some t ∧ s.threads t = some (.inside op l)

/-- Some continuation of the process completes the call of thread `t`. -/
def Completes (M : Monitor σ Op Res Loc) (s : Proc σ Op Res Loc) (t : Nat) : Prop :=
  ∃ ls s' s'', M.procSystem.Run s ls s' ∧ M.procSystem.step s' (.unlock t) s''

/-- A thread that waits for itself will not release the mutex. -/
theorem Ok.stuck_lost (h : M.Ok v₀ s) (hpc : s.threads t = some .stuck) : ¬ Releasable s := by
  have hheld := h.holder t _ hpc trivial
  rintro (hnone | ⟨t', op, loc, hguard, ht'⟩)
  · cases hnone.symm.trans hheld
  · cases hguard.symm.trans hheld
    cases hpc.symm.trans ht'

/-- The step is a call from inside a callback. -/
def IsCallBack : Label Op → Prop
  | .callBack _ _ => True
  | _ => False

/-- The mutex is lost by a call from inside a callback, and for good. -/
theorem Ok.lost_step_iff (h : M.Ok v₀ s) (hstep : M.Step s l s') :
    ¬ Releasable s' ↔ ¬ Releasable s ∨ IsCallBack l := by
  cases hstep with
  | @call t op hidle =>
    have hsame : Releasable (s.move t (some (.waiting op))) ↔ Releasable s := by
      refine or_congr Iff.rfl ⟨?_, ?_⟩
      · rintro ⟨t', op', loc, hguard, ht'⟩
        rcases update_cases ht' with ⟨-, ⟨⟩⟩ | ⟨-, hold⟩
        exact ⟨t', op', loc, hguard, hold⟩
      · rintro ⟨t', op', loc, hguard, ht'⟩
        have hne : t' ≠ t := by
          rintro rfl
          cases hidle.symm.trans ht'
        exact ⟨t', op', loc, hguard, (Function.update_of_ne hne ..).trans ht'⟩
    rw [hsame]
    exact (or_iff_left id).symm
  | @lock t op hpc hfree =>
    refine iff_of_false (fun hlost => hlost ?_) ?_
    · exact .inr ⟨t, _, _, rfl, Function.update_self ..⟩
    · rintro (hlost | hno)
      · exact hlost (.inl hfree)
      · exact hno
  | @step t op loc v' loc' hpc hmicro =>
    have hheld := h.holder t _ hpc trivial
    refine iff_of_false (fun hlost => hlost ?_) ?_
    · exact .inr ⟨t, _, _, hheld, Function.update_self ..⟩
    · rintro (hlost | hno)
      · exact hlost (.inr ⟨t, _, _, hheld, hpc⟩)
      · exact hno
  | @unlock t op loc r hpc hr =>
    refine iff_of_false (fun hlost => hlost (.inl rfl)) ?_
    rintro (hlost | hno)
    · exact hlost (.inr ⟨t, _, _, h.holder t _ hpc trivial, hpc⟩)
    · exact hno
  | callBack hpc | captiveCall hpc =>
    exact iff_of_true ((h.stuck hpc trivial).stuck_lost (Function.update_self ..)) (.inr trivial)
  | exit => exact (or_iff_left id).symm

/-- The copy of a mutex is lost exactly when somebody held the original. -/
theorem releasable_forked_iff : Releasable (s.forked t) ↔ s.guard = none := by
  constructor
  · rintro (hfree | ⟨t', op, loc, -, ht'⟩)
    · exact hfree
    · obtain ⟨-, hpc, -⟩ := forked_threads ht'
      cases hpc
  · exact .inl

/-- A call that is completed was not waiting for a lost mutex. -/
theorem Ok.releasable_of_completes (hok : M.Ok v₀ s) (h : M.Completes s t) : Releasable s := by
  by_contra hlost
  obtain ⟨ls, s', s'', hrun, hunlock, -⟩ := h
  obtain ⟨hok', hlost'⟩ : M.Ok v₀ s' ∧ ¬ Releasable s' := by
    refine hrun.invariant (P := fun x => M.Ok v₀ x ∧ ¬ Releasable x) ?_ ⟨hok, hlost⟩
    rintro x a y ⟨hxy, -⟩ ⟨hx, hxlost⟩
    exact ⟨hx.step hxy, (hx.lost_step_iff hxy).mpr (.inl hxlost)⟩
  cases hunlock with
  | unlock hpc hr => exact hlost' (.inr ⟨t, _, _, hok'.holder t _ hpc trivial, hpc⟩)

/-- What a thread can do inside an operation it can do in its process. -/
theorem Steps.run {v' : σ} {loc loc' : Loc} (h : M.Steps s.value loc v' loc') {op : Op}
    (hlive : s.ended = false) (hpc : s.threads t = some (.inside op loc)) :
    ∃ ls s', M.procSystem.Run s ls s' ∧ s'.ended = false ∧
      s'.threads t = some (.inside op loc') ∧ s'.value = v' ∧
      ∀ t', t' ≠ t → s'.threads t' = s.threads t' := by
  induction h with
  | refl => exact ⟨[], s, .nil s, hlive, hpc, rfl, fun _ _ => rfl⟩
  | @tail _ v'' _ loc'' _ hmicro ih =>
    obtain ⟨ls, s', hrun, hlive', hpc', rfl, hothers⟩ := ih
    refine ⟨ls ++ [.step t], { s'.move t (some (.inside op loc'')) with value := v'' },
      hrun.append (.cons ⟨.step hpc' hmicro, hlive'⟩ (.nil _)), hlive',
      Function.update_self .., rfl, fun t' ht' => ?_⟩
    exact (Function.update_of_ne ht' ..).trans (hothers t' ht')

/-- A thread inside an operation can complete it. -/
theorem complete_inside (hfin : M.Finishes) {v : σ} {op : Op} {loc : Loc}
    (hlive : s.ended = false) (hpc : s.threads t = some (.inside op loc))
    (hbegun : M.Steps v (M.start op) s.value loc) :
    ∃ ls s' s'', M.procSystem.Run s ls s' ∧ M.procSystem.step s' (.unlock t) s'' ∧
      s''.ended = false ∧ s''.guard = none ∧ ∀ t', t' ≠ t → s''.threads t' = s.threads t' := by
  obtain ⟨v', loc', r, hsteps, hr⟩ := hfin v op s.value loc hbegun
  obtain ⟨ls, s', hrun, hlive', hpc', -, hothers⟩ := hsteps.run hlive hpc
  refine ⟨ls, s', { s'.move t none with guard := none, done := s'.done ++ [(op, r)] }, hrun,
    ⟨.unlock hpc' hr, hlive'⟩, hlive', rfl, fun t' ht' => ?_⟩
  exact (Function.update_of_ne ht' ..).trans (hothers t' ht')

/-- A thread that waits for a free mutex can complete its call. -/
theorem completes_of_free (hfin : M.Finishes) {op : Op} (hlive : s.ended = false)
    (hpc : s.threads t = some (.waiting op)) (hfree : s.guard = none) : M.Completes s t := by
  have hlock : M.procSystem.step s (.lock t) _ := ⟨.lock hpc hfree, hlive⟩
  have hinside : (s.move t (some (.inside op (M.start op)))).threads t =
      some (.inside op (M.start op)) := Function.update_self ..
  obtain ⟨ls, s', s'', hrun, hunlock, -⟩ := complete_inside hfin
    (s := { s.move t (some (.inside op (M.start op))) with guard := some t }) hlive hinside .refl
  exact ⟨.lock t :: ls, s', s'', .cons hlock hrun, hunlock⟩

/-- A waiting call can complete exactly when the mutex is not lost. -/
theorem completes_iff (hfin : M.Finishes) (hok : M.Ok v₀ s) {op : Op} (hlive : s.ended = false)
    (hpc : s.threads t = some (.waiting op)) : M.Completes s t ↔ Releasable s := by
  refine ⟨hok.releasable_of_completes, ?_⟩
  rintro (hfree | ⟨t', op', loc, -, ht'⟩)
  · exact completes_of_free hfin hlive hpc hfree
  · -- first the holder completes its own
    have hne : t ≠ t' := by
      rintro rfl
      cases hpc.symm.trans ht'
    obtain ⟨v, -, -, hinside⟩ := hok.explained
    obtain ⟨ls, s', s'', hrun, hunlock, hlive'', hfree, hothers⟩ :=
      complete_inside hfin hlive ht' (hinside t' op' loc ht')
    obtain ⟨ls', x, x', hrun', hunlock'⟩ :=
      completes_of_free hfin hlive'' ((hothers t hne).trans hpc) hfree
    exact ⟨ls ++ .unlock t' :: ls', x, x', hrun.append (.cons hunlock hrun'), hunlock'⟩

/-! ## How the mutex is lost -/

/-- The fork finds the mutex free, and a callback calls nothing. -/
def Careful : ProcessKind.Family Unit (Proc σ Op Res Loc) →
    ProcessKind.Label (Label Op) Nat → Prop :=
  ProcessKind.Careful (fun _ l => IsCallBack l) fun s _ => s.guard ≠ none

/-- No mutex of a run is lost exactly when all its steps are careful. -/
theorem allReleasable_iff {F : ProcessKind.Family Unit (Proc σ Op Res Loc)} {root : Nat}
    {ls : List (ProcessKind.Label (Label Op) Nat)}
    (h : M.kind.system.Run (family root v₀) ls F) :
    F.Forall Releasable ↔ (M.kind.system.restrict Careful).Run (family root v₀) ls F := by
  have hnot : F.Forall (fun s => ¬ ¬ Releasable s) ↔ F.Forall Releasable :=
    forall_congr' fun p => forall_congr' fun s => imp_congr_right fun _ => not_not
  rw [← hnot]
  refine ProcessKind.noneSpoiled_iff (K := M.kind) (I := M.Ok v₀) ?_ ?_ ?_ ?_ h
    (ProcessKind.Family.forall_start (M.ok_start v₀))
    (ProcessKind.Family.forall_start (not_not_intro (.inl rfl)))
  · exact fun _ _ _ _ _ hstep hx => hx.step hstep.1
  · rintro m who _ ⟨-, huser, rfl⟩ hx
    exact hx.forked huser
  · exact fun _ _ _ _ _ hstep hx => hx.lost_step_iff hstep.1
  · rintro m who _ ⟨-, -, rfl⟩ - -
    exact not_congr releasable_forked_iff

end Monitor

end ProcessCpp.Base
