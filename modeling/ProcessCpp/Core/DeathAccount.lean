import ProcessCpp.Core.DeathObserver

/-!
# Death notifications are accounted for

Any number of threads call `add` and `on_sig_child`, and both can see the same death:
`add` with its own `waitpid`, `on_sig_child` with a pid it reaped before it took the
mutex. Whoever announces a child erases it before it gives the mutex back, so the books
balance whenever the mutex is free: announcements plus entries are insertions
(`deaths_accounted`). Nothing is asked of the kernel for this: pids may be recycled and
others may wait.

- `Protected R A B`: what the mutex protects. `R` holds of the observer while the mutex is
  free, `A` and `B` while a thread stands at that place of its critical section;
  `Protected.step` carries it over any step if the critical sections do so one by one
  (`Discipline`);
- `Observer.Ledger`: the books, with the pid that has been announced and not been erased;
- `AddPc.Did`: what a call of `add` has done since it took the mutex.
-/

namespace ProcessCpp.Core

open ProcessCpp.Base ProcessCpp.Posix

variable {s s' : ObserverState} {k k' : Kernel} {o o' : Observer}

/-! ## What the mutex protects -/

/-- The assertions `R`, `A`, `B` are kept by the critical sections, taken one by one: the
mutex is taken where `R` holds, and given back where `R` holds. -/
structure Discipline (R : Observer → Prop) (A : AddPc → Observer → Prop)
    (B : OscPc → Observer → Prop) : Prop where
  addEnter : ∀ {me k o pc l k' o' b}, AddStep me k o pc l k' o' (some b) →
    pc.critical = false → b.critical = true → R o → A b o'
  addInside : ∀ {me k o pc l k' o' b}, AddStep me k o pc l k' o' (some b) →
    pc.critical = true → A pc o → A b o'
  addLeave : ∀ {me k o pc l k' o'}, AddStep me k o pc l k' o' none →
    pc.critical = true → A pc o → R o'
  oscEnter : ∀ {me k o pc l k' o' b}, OscStep me k o pc l k' o' (some b) →
    pc.critical = false → b.critical = true → R o → B b o'
  oscInside : ∀ {me k o pc l k' o' b}, OscStep me k o pc l k' o' (some b) →
    pc.critical = true → b.critical = true → B pc o → B b o'
  oscLeave : ∀ {me k o pc l k' o' b}, OscStep me k o pc l k' o' (some b) →
    pc.critical = true → b.critical = false → B pc o → R o'

namespace ObserverState

structure Protected (R : Observer → Prop) (A : AddPc → Observer → Prop)
    (B : OscPc → Observer → Prop) (s : ObserverState) : Prop where
  free : s.observer.guard = none → R s.observer
  adding : ∀ i pc, s.adding i = some pc → pc.critical = true → A pc s.observer
  handling : ∀ i pc, s.handling i = some pc → pc.critical = true → B pc s.observer

/-- While a thread holds the mutex, no other is inside its critical section. -/
theorem Guarded.add_unique (h : s.Guarded) {i j : Nat} {pc b : AddPc}
    (hi : s.adding i = some pc) (hpc : pc.critical = true) (hj : s.adding j = some b)
    (hb : b.critical = true) : j = i := by
  have hguard := h.adding j b hj hb
  rw [h.adding i pc hi hpc] at hguard
  cases hguard
  rfl

theorem Guarded.osc_unique (h : s.Guarded) {i j : Nat} {pc b : OscPc}
    (hi : s.handling i = some pc) (hpc : pc.critical = true) (hj : s.handling j = some b)
    (hb : b.critical = true) : j = i := by
  have hguard := h.handling j b hj hb
  rw [h.handling i pc hi hpc] at hguard
  cases hguard
  rfl

theorem Guarded.not_both (h : s.Guarded) {i j : Nat} {pc : AddPc} {b : OscPc}
    (hi : s.adding i = some pc) (hpc : pc.critical = true) (hj : s.handling j = some b)
    (hb : b.critical = true) : False := by
  have hguard := h.handling j b hj hb
  rw [h.adding i pc hi hpc] at hguard
  cases hguard

end ObserverState

/-- A thread outside its critical section leaves the observer alone, or takes the mutex. -/
theorem AddStep.outside {me : Nat} {pc : AddPc} {l : AddLabel} {pc' : Option AddPc}
    (h : AddStep me k o pc l k' o' pc') (hpc : pc.critical = false) :
    (o' = o ∧ pc' = none) ∨
      (o.guard = none ∧ ∃ b, pc' = some b ∧ b.critical = true ∧
        o' = { o with guard := some (.add me) }) := by
  cases h with
  | invalidPid => exact .inl ⟨rfl, rfl⟩
  | lock _ hfree => exact .inr ⟨hfree, _, rfl, rfl, rfl⟩
  | _ => cases hpc

theorem OscStep.outside {me : Nat} {pc : OscPc} {l : OscLabel} {pc' : Option OscPc}
    (h : OscStep me k o pc l k' o' pc') (hpc : pc.critical = false) :
    (o' = o ∧ ∀ b, pc' = some b → b.critical = false) ∨
      (o.guard = none ∧ ∃ b, pc' = some b ∧ b.critical = true ∧
        o' = { o with guard := some (.onSigChild me) }) := by
  cases h with
  | noMoreChildren => exact .inl ⟨rfl, nofun⟩
  | stray | reaped => exact .inl ⟨rfl, by rintro _ ⟨⟩; rfl⟩
  | lock hfree => exact .inr ⟨hfree, _, rfl, rfl, rfl⟩
  | _ => cases hpc

namespace ObserverState

variable {R : Observer → Prop} {A : AddPc → Observer → Prop} {B : OscPc → Observer → Prop}

theorem Guarded.not_free_of_adding (h : s.Guarded) {i : Nat} {pc : AddPc}
    (hi : s.adding i = some pc) (hpc : pc.critical = true) : s.observer.guard ≠ none := by
  rw [h.adding i pc hi hpc]
  exact Option.some_ne_none _

theorem Guarded.not_free_of_handling (h : s.Guarded) {i : Nat} {pc : OscPc}
    (hi : s.handling i = some pc) (hpc : pc.critical = true) : s.observer.guard ≠ none := by
  rw [h.handling i pc hi hpc]
  exact Option.some_ne_none _

theorem Protected.addStep (D : Discipline R A B) (h : s.Protected R A B) (hg : s.Guarded)
    {i : Nat} {pc : AddPc} {l : AddLabel} {pc' : Option AddPc} (hpc : s.adding i = some pc)
    (hstep : AddStep i s.kernel s.observer pc l k' o' pc') :
    (s.moveAdding i k' o' pc').Protected R A B := by
  cases hcrit : pc.critical with
  | false =>
    rcases hstep.outside hcrit with ⟨rfl, rfl⟩ | ⟨hfree, b, rfl, hb, rfl⟩
    · exact ⟨h.free, forall_update (fun j c _ => h.adding j c) nofun, h.handling⟩
    · -- the mutex was free, so no other thread is inside
      refine ⟨nofun, forall_update (fun j c _ hj hc => ?_) ?_, fun j c hj hc => ?_⟩
      · exact absurd hfree (hg.not_free_of_adding hj hc)
      · rintro _ ⟨⟩ -
        exact D.addEnter hstep hcrit hb (h.free hfree)
      · exact absurd hfree (hg.not_free_of_handling hj hc)
  | true =>
    have hA := h.adding i pc hpc hcrit
    refine ⟨fun hfree => ?_, forall_update (fun j c hji hj hc => ?_) ?_, fun j c hj hc => ?_⟩
    · cases pc' with
      | none => exact D.addLeave hstep hcrit hA
      | some b =>
        have hheld := hg.not_free_of_adding hpc hcrit
        rcases hstep.guard_cases with ⟨hnone, -⟩ | ⟨-, hnone⟩ | ⟨hsame, -⟩
        · exact absurd hnone hheld
        · cases hnone
        · exact absurd (hsame.symm.trans hfree) hheld
    · exact absurd (hg.add_unique hpc hcrit hj hc) hji
    · rintro b rfl -
      exact D.addInside hstep hcrit hA
    · exact (hg.not_both hpc hcrit hj hc).elim

theorem Protected.oscStep (D : Discipline R A B) (h : s.Protected R A B) (hg : s.Guarded)
    {i : Nat} {pc : OscPc} {l : OscLabel} {pc' : Option OscPc} (hpc : s.handling i = some pc)
    (hstep : OscStep i s.kernel s.observer pc l k' o' pc') :
    (s.moveHandling i k' o' pc').Protected R A B := by
  cases hcrit : pc.critical with
  | false =>
    rcases hstep.outside hcrit with ⟨rfl, hout⟩ | ⟨hfree, b, rfl, hb, rfl⟩
    · refine ⟨h.free, h.adding, forall_update (fun j c _ => h.handling j c) fun b hb hc => ?_⟩
      rw [hout b hb] at hc
      cases hc
    · refine ⟨nofun, fun j c hj hc => ?_, forall_update (fun j c _ hj hc => ?_) ?_⟩
      · exact absurd hfree (hg.not_free_of_adding hj hc)
      · exact absurd hfree (hg.not_free_of_handling hj hc)
      · rintro _ ⟨⟩ -
        exact D.oscEnter hstep hcrit hb (h.free hfree)
  | true =>
    have hB := h.handling i pc hpc hcrit
    have hheld := hg.not_free_of_handling hpc hcrit
    refine ⟨fun hfree => ?_, fun j c hj hc => ?_, forall_update (fun j c hji hj hc => ?_) ?_⟩
    · rcases hstep.guard_cases with ⟨hnone, -⟩ | ⟨-, rfl⟩ | ⟨hsame, -⟩
      · exact absurd hnone hheld
      · exact D.oscLeave hstep hcrit rfl hB
      · exact absurd (hsame.symm.trans hfree) hheld
    · exact (hg.not_both hj hc hpc hcrit).elim
    · exact absurd (hg.osc_unique hpc hcrit hj hc) hji
    · rintro b rfl hb
      exact D.oscInside hstep hcrit hb hB

theorem Protected.step (D : Discipline R A B) {l : ObserverLabel} (h : s.Protected R A B)
    (hg : s.Guarded) (hstep : ObserverStep s l s') : s'.Protected R A B := by
  cases hstep with
  | kernel | waitFor => exact ⟨h.free, h.adding, h.handling⟩
  | callAdd =>
    exact ⟨h.free, forall_update (fun j pc _ => h.adding j pc) (by rintro _ ⟨⟩ ⟨⟩), h.handling⟩
  | add hpc hadd => exact h.addStep D hg hpc hadd
  | callOnSigChild =>
    exact ⟨h.free, h.adding, forall_update (fun j pc _ => h.handling j pc) (by rintro _ ⟨⟩ ⟨⟩)⟩
  | onSigChild hpc hosc => exact h.oscStep D hg hpc hosc

end ObserverState

/-! ## The books -/

namespace Observer

/-- The number of emissions of `child_died` for a pid. -/
def announcements (o : Observer) (p : Nat) : Nat := o.died.countP fun c => c.pid = p

/-- The number of calls of `add` that inserted a pid. -/
def insertions (o : Observer) (p : Nat) : Nat := o.inserted.countP fun c => c.pid = p

/-- The number of entries for a pid. -/
def entries (o : Observer) (p : Nat) : Nat := if (o.children p).isSome then 1 else 0

/-- The map holds every child under its own pid, and the announcements plus the entries
are the insertions, with one announcement too many for the pid `ahead`. -/
structure Ledger (ahead : Option Nat) (o : Observer) : Prop where
  keyed : ∀ pid c, o.children pid = some c → c.pid = pid
  balance : ∀ p, o.announcements p + o.entries p =
    o.insertions p + if ahead = some p then 1 else 0

theorem Ledger.setGuard {ahead : Option Nat} (h : o.Ledger ahead) (g : Option Locker) :
    Ledger ahead { o with guard := g } :=
  ⟨h.keyed, h.balance⟩

theorem entries_of_some {p : Nat} {c : ChildProcess} (h : o.children p = some c) :
    o.entries p = 1 := by
  rw [entries, h]
  rfl

theorem entries_of_none {p : Nat} (h : o.children p = none) : o.entries p = 0 := by
  rw [entries, h]
  rfl

theorem Ledger.insert (h : o.Ledger none) {c : ChildProcess} (hnew : o.children c.pid = none) :
    (o.insert c).Ledger none where
  keyed pid d hd := by
    rcases children_insert hd with ⟨rfl, rfl⟩ | ⟨-, hold⟩
    · rfl
    · exact h.keyed pid d hold
  balance p := by
    have hbal := h.balance p
    have hins : (o.insert c).insertions p = o.insertions p + if c.pid = p then 1 else 0 := by
      simp [insertions, Observer.insert, List.countP_singleton]
    have hann : (o.insert c).announcements p = o.announcements p := rfl
    rw [hins, hann]
    by_cases hp : p = c.pid
    · subst hp
      rw [entries_of_some (Function.update_self ..), if_pos rfl]
      rw [entries_of_none hnew] at hbal
      omega
    · have hsame : (o.insert c).entries p = o.entries p := by
        show (if (Function.update o.children c.pid (some c) p).isSome then 1 else 0) = _
        rw [Function.update_of_ne hp]
        rfl
      rw [hsame, if_neg (Ne.symm hp), hbal, Nat.add_zero]

theorem Ledger.emit (h : o.Ledger none) (c : ChildProcess) : (o.emit c).Ledger (some c.pid) where
  keyed := h.keyed
  balance p := by
    have hbal := h.balance p
    have hann : (o.emit c).announcements p = o.announcements p + if c.pid = p then 1 else 0 := by
      simp [announcements, Observer.emit, List.countP_singleton]
    have hins : (o.emit c).insertions p = o.insertions p := rfl
    have hent : (o.emit c).entries p = o.entries p := rfl
    rw [hann, hins, hent]
    by_cases hp : c.pid = p
    · rw [if_pos hp, if_pos (congrArg some hp)]
      rw [if_neg nofun] at hbal
      omega
    · rw [if_neg hp, if_neg fun he => hp (Option.some.inj he)]
      rw [if_neg nofun] at hbal
      omega

theorem Ledger.erase {pid : Nat} {c : ChildProcess} (h : o.Ledger (some pid))
    (hc : o.children pid = some c) : (o.erase pid).Ledger none where
  keyed q d hd := h.keyed q d (children_erase hd).2
  balance p := by
    have hbal := h.balance p
    have hann : (o.erase pid).announcements p = o.announcements p := rfl
    have hins : (o.erase pid).insertions p = o.insertions p := rfl
    rw [hann, hins, if_neg nofun]
    by_cases hp : p = pid
    · subst hp
      rw [entries_of_none (Function.update_self ..)]
      rw [entries_of_some hc, if_pos rfl] at hbal
      omega
    · have hsame : (o.erase pid).entries p = o.entries p := by
        show (if (Function.update o.children pid none p).isSome then 1 else 0) = _
        rw [Function.update_of_ne hp]
        rfl
      rw [if_neg fun he => hp (Option.some.inj he).symm] at hbal
      rw [hsame, hbal]

end Observer

/-- What a thread inside `add` can say of the books. -/
def AddPc.Ledger : AddPc → Observer → Prop
  | .start _, _ => True
  | .locked _, o | .leaving _ _, o => o.Ledger none
  | .inserted c, o | .missed c, o => o.Ledger none ∧ o.children c.pid = some c
  | .emitted c, o => o.Ledger (some c.pid) ∧ o.children c.pid = some c

/-- What a thread inside `on_sig_child` can say of the books. -/
def OscPc.Ledger : OscPc → Observer → Prop
  | .wait, _ | .reaped _ _, _ => True
  | .locked _ _, o | .leaving, o => o.Ledger none
  | .found pid _ c, o => o.Ledger none ∧ o.children pid = some c
  | .emitted pid c, o => o.Ledger (some pid) ∧ o.children pid = some c

theorem ledger_discipline : Discipline (Observer.Ledger none) AddPc.Ledger OscPc.Ledger where
  addEnter h hpc hb hR := by
    cases h with
    | lock => exact hR.setGuard _
    | _ => cases hpc
  addInside h hpc hA := by
    cases h with
    | lock => cases hpc
    | insert hnew => exact ⟨hA.insert hnew, Function.update_self ..⟩
    | present => exact hA
    | alive => exact hA.1
    | gone => exact hA
    | emit => exact ⟨hA.1.emit _, hA.2⟩
    | erase => exact hA.1.erase hA.2
  addLeave h hpc hA := by
    cases h with
    | invalidPid => cases hpc
    | unlock => exact hA.setGuard _
  oscEnter h hpc hb hR := by
    cases h with
    | lock => exact hR.setGuard _
    | stray | reaped => cases hb
    | _ => cases hpc
  oscInside h hpc hb hB := by
    cases h with
    | stray | reaped | lock => cases hpc
    | found hfind => exact ⟨hB, hfind⟩
    | notFound => exact hB
    | @emit pid status c =>
      -- the value is announced under its own pid, which is the key it was found under
      have hpid := hB.1.keyed _ _ hB.2
      exact ⟨hpid ▸ hB.1.emit c, hB.2⟩
    | skip => exact hB.1
    | erase => exact hB.1.erase hB.2
    | unlock => cases hb
  oscLeave h hpc hb hB := by
    cases h with
    | unlock => exact hB.setGuard _
    | stray | reaped => cases hpc
    | _ => cases hb

theorem Observer.ledger_initial : Observer.initial.Ledger none := ⟨nofun, fun _ => rfl⟩

/-- The books after the emission of an entry. -/
theorem Observer.Ledger.emit_le (h : o.Ledger none) {c : ChildProcess}
    (hc : o.children c.pid = some c) (p : Nat) :
    (o.emit c).announcements p ≤ (o.emit c).insertions p := by
  have hbal := (h.emit c).balance p
  by_cases hp : c.pid = p
  · subst hp
    have hent : (o.emit c).entries c.pid = 1 := Observer.entries_of_some hc
    rw [hent, if_pos rfl] at hbal
    omega
  · rw [if_neg fun he => hp (Option.some.inj he)] at hbal
    omega

theorem AddStep.announcements_le {me : Nat} {pc : AddPc} {l : AddLabel} {pc' : Option AddPc}
    (h : AddStep me k o pc l k' o' pc') (hpc : pc.critical = true → pc.Ledger o)
    (hle : ∀ p, o.announcements p ≤ o.insertions p) (p : Nat) :
    o'.announcements p ≤ o'.insertions p := by
  cases h with
  | @insert c hnew =>
    have hgrow : o.insertions p ≤ (o.insert c).insertions p :=
      List.Sublist.countP_le (List.sublist_append_left _ _)
    exact (hle p).trans hgrow
  | emit => exact (hpc rfl).1.emit_le (hpc rfl).2 p
  | _ => exact hle p

theorem OscStep.announcements_le {me : Nat} {pc : OscPc} {l : OscLabel} {pc' : Option OscPc}
    (h : OscStep me k o pc l k' o' pc') (hpc : pc.critical = true → pc.Ledger o)
    (hle : ∀ p, o.announcements p ≤ o.insertions p) (p : Nat) :
    o'.announcements p ≤ o'.insertions p := by
  cases h with
  | @emit pid status c =>
    obtain ⟨hledger, hfound⟩ := hpc rfl
    obtain rfl := hledger.keyed _ _ hfound
    exact hledger.emit_le hfound p
  | _ => exact hle p

/-! ## One call of `add` -/

/-- The member whose critical section a step belongs to. -/
def ObserverLabel.locker : ObserverLabel → Option Locker
  | .add i _ => some (.add i)
  | .onSigChild i _ => some (.onSigChild i)
  | _ => none

/-- While a thread holds the mutex, the others leave the observer alone. -/
theorem ObserverStep.observer_eq {l : ObserverLabel} {g : Locker} (hg : s.Guarded)
    (hguard : s.observer.guard = some g) (h : ObserverStep s l s') (hl : l.locker ≠ some g) :
    s'.observer = s.observer := by
  cases h with
  | kernel | callAdd | callOnSigChild | waitFor => rfl
  | @add i pc _ _ _ _ hpc hadd =>
    cases hcrit : pc.critical with
    | true =>
      have hheld := hg.adding i pc hpc hcrit
      exact absurd (hheld.symm.trans hguard) hl
    | false =>
      rcases hadd.outside hcrit with ⟨rfl, -⟩ | ⟨hfree, -⟩
      · rfl
      · rw [hguard] at hfree
        cases hfree
  | @onSigChild i pc _ _ _ _ hpc hosc =>
    cases hcrit : pc.critical with
    | true =>
      have hheld := hg.handling i pc hpc hcrit
      exact absurd (hheld.symm.trans hguard) hl
    | false =>
      rcases hosc.outside hcrit with ⟨rfl, -⟩ | ⟨hfree, -⟩
      · rfl
      · rw [hguard] at hfree
        cases hfree

/-- The observer with the mutex free. -/
def Observer.unlocked (o : Observer) : Observer := { o with guard := none }

/-- What a call of `add` has done at each place since it took the mutex, when the observer
was `o₀`. -/
def AddPc.Did (o₀ : Observer) : AddPc → Observer → Prop
  | .start _, _ => False
  | .locked _, o => o.unlocked = o₀
  | .inserted c, o | .missed c, o | .leaving c true, o =>
    o₀.children c.pid = none ∧ o.unlocked = o₀.insert c
  | .emitted c, o => o₀.children c.pid = none ∧ o.unlocked = (o₀.insert c).emit c
  | .leaving c false, o =>
    (o₀.children c.pid ≠ none ∧ o.unlocked = o₀) ∨
      (o₀.children c.pid = none ∧ o.unlocked = ((o₀.insert c).emit c).erase c.pid)

theorem AddPc.Did.critical {o₀ : Observer} {pc : AddPc} (h : pc.Did o₀ o) :
    pc.critical = true := by
  cases pc with
  | start => exact h.elim
  | _ => rfl

theorem AddPc.Did.step {o₀ : Observer} {me : Nat} {pc b : AddPc} {l : AddLabel}
    (h : pc.Did o₀ o) (hstep : AddStep me k o pc l k' o' (some b)) : b.Did o₀ o' := by
  cases hstep with
  | lock => exact h.elim
  | insert hnew =>
    obtain rfl : o.unlocked = o₀ := h
    exact ⟨hnew, rfl⟩
  | @present c d hold =>
    obtain rfl : o.unlocked = o₀ := h
    have hpresent : o.children c.pid ≠ none := by
      rw [hold]
      exact Option.some_ne_none _
    exact .inl ⟨hpresent, rfl⟩
  | alive => exact h
  | gone => exact h
  | @emit c =>
    refine ⟨h.1, ?_⟩
    show o.unlocked.emit c = _
    rw [h.2]
  | @erase c =>
    refine .inr ⟨h.1, ?_⟩
    show o.unlocked.erase c.pid = _
    rw [h.2]

/-- Inserting, announcing and erasing a new child leaves the map as it was. -/
theorem Observer.children_undone {c : ChildProcess} (hnew : o.children c.pid = none) :
    (((o.insert c).emit c).erase c.pid).children = o.children := by
  show Function.update (Function.update o.children c.pid (some c)) c.pid none = o.children
  rw [Function.update_idem, ← hnew, Function.update_eq_self]

/-- The steps during which a call of `add` by thread `i` does not return. -/
def NotReturning (i : Nat) (_ : ObserverState) (l : ObserverLabel) : Prop :=
  ∀ result, l ≠ .add i (.ret result)

/-- Thread `i` is inside `add` for the child `c`, with the mutex taken from `o₀`. -/
structure ObserverState.Inside (i : Nat) (c : ChildProcess) (o₀ : Observer) (s : ObserverState) :
    Prop where
  guarded : s.Guarded
  did : ∃ pc, s.adding i = some pc ∧ pc.child = c ∧ pc.Did o₀ s.observer

theorem ObserverState.Inside.step {i : Nat} {c : ChildProcess} {o₀ : Observer} {l : ObserverLabel}
    (h : s.Inside i c o₀) (hstep : ObserverStep s l s') (hl : NotReturning i s l) :
    s'.Inside i c o₀ := by
  obtain ⟨hg, pc, hpc, hchild, hdid⟩ := h
  refine ⟨hg.step hstep, ?_⟩
  have hguard := hg.adding i pc hpc hdid.critical
  by_cases hmine : l.locker = some (.add i)
  · -- a step of the call itself, which is not the last one
    cases hstep with
    | @add j b al k' o' b' hb hadd =>
      cases hmine
      rw [hpc] at hb
      cases hb
      cases b' with
      | none =>
        cases hadd with
        | invalidPid => exact absurd rfl (hl _)
        | unlock => exact absurd rfl (hl _)
      | some b =>
        exact ⟨b, Function.update_self .., hadd.child.trans hchild, hdid.step hadd⟩
    | kernel | callAdd | callOnSigChild | onSigChild | waitFor => cases hmine
  · have hsame := hstep.observer_eq hg hguard hmine
    rw [hsame]
    refine ⟨pc, ?_, hchild, hdid⟩
    cases hstep with
    | kernel | callOnSigChild | onSigChild | waitFor => exact hpc
    | @callAdd j d hidle hmade =>
      have hne : i ≠ j := by
        rintro rfl
        rw [hpc] at hidle
        cases hidle
      exact (Function.update_of_ne hne ..).trans hpc
    | @add j b al k' o' b' hb hadd =>
      have hne : i ≠ j := by
        rintro rfl
        exact hmine rfl
      exact (Function.update_of_ne hne ..).trans hpc

/-- A call of `add` that took the mutex when the observer was `o₀` and has just returned. -/
theorem ObserverState.Inside.ret {i : Nat} {c : ChildProcess} {o₀ : Observer} {result : Bool}
    (h : s.Inside i c o₀) (hstep : ObserverStep s (.add i (.ret result)) s') :
    (result = true → o₀.children c.pid = none ∧ s'.observer = o₀.insert c) ∧
    (result = false →
      (o₀.children c.pid ≠ none ∧ s'.observer = o₀) ∨
      (s'.observer.children = o₀.children ∧ s'.observer.died = o₀.died ++ [c])) := by
  obtain ⟨hg, pc, hpc, hchild, hdid⟩ := h
  cases hstep with
  | @add _ b _ k' o' b' hb hadd =>
    rw [hpc] at hb
    cases hb
    cases hadd with
    | invalidPid => exact hdid.elim
    | @unlock d =>
      obtain rfl : d = c := hchild
      constructor
      · rintro rfl
        exact hdid
      · rintro rfl
        rcases hdid with hpresent | ⟨hnew, hundone⟩
        · exact .inl hpresent
        · have hobs : s.observer.unlocked = _ := hundone
          refine .inr ⟨?_, ?_⟩
          · show s.observer.unlocked.children = o₀.children
            rw [hobs, Observer.children_undone hnew]
          · show s.observer.unlocked.died = _
            rw [hobs]
            rfl

/-- What holds of the books in every reachable state. -/
structure ObserverState.Accounted (s : ObserverState) : Prop where
  ledger : s.Protected (Observer.Ledger none) AddPc.Ledger OscPc.Ledger
  atMostOnce : ∀ p, s.observer.announcements p ≤ s.observer.insertions p

theorem ObserverState.Accounted.step {l : ObserverLabel} (h : s.Accounted) (hg : s.Guarded)
    (hstep : ObserverStep s l s') : s'.Accounted := by
  refine ⟨h.ledger.step ledger_discipline hg hstep, ?_⟩
  cases hstep with
  | kernel | callAdd | callOnSigChild | waitFor => exact h.atMostOnce
  | add hpc hadd => exact hadd.announcements_le (h.ledger.adding _ _ hpc) h.atMostOnce
  | onSigChild hpc hosc => exact hosc.announcements_le (h.ledger.handling _ _ hpc) h.atMostOnce

theorem ObserverState.Accounted.run {ls : List ObserverLabel}
    (h : observerSystem.Run (.start k .initial) ls s) : s.Guarded ∧ s.Accounted := by
  refine h.invariant (P := fun t => t.Guarded ∧ t.Accounted)
    (fun _ _ _ hstep ht => ⟨ht.1.step hstep, ht.2.step ht.1 hstep⟩) ⟨⟨nofun, nofun⟩, ?_, ?_⟩
  · exact ⟨fun _ => Observer.ledger_initial, nofun, nofun⟩
  · exact fun _ => Nat.le_refl 0

/-- **Death notifications are accounted for.** With any number of threads in `add` and
`on_sig_child`, in every reachable state: while the mutex is free, the announcements of a
pid plus its entry in `children` are the insertions, and no insertion is ever announced
twice. A call of `add` that returns `true` leaves its child in `children`; one that
returns `false` changed nothing, because the pid was there or is `-1`, or announced the
child once and left `children` as it found it. -/
theorem deaths_accounted (k : Kernel) (ls : List ObserverLabel) (s : ObserverState)
    (h : observerSystem.Run (.start k .initial) ls s) :
    (s.observer.guard = none → ∀ p, s.observer.announcements p +
      (if (s.observer.children p).isSome then 1 else 0) = s.observer.insertions p) ∧
    (∀ p, s.observer.announcements p ≤ s.observer.insertions p) ∧
    (∀ i c result s', s.adding i = some (.start c) →
      observerSystem.step s (.add i (.ret result)) s' →
        result = false ∧ (c.pid : Int) = -1 ∧ s'.observer = s.observer) ∧
    (∀ i c s₁ ms s₂ result s₃, s.adding i = some (.start c) →
      observerSystem.step s (.add i .lock) s₁ →
      (observerSystem.restrict (NotReturning i)).Run s₁ ms s₂ →
      observerSystem.step s₂ (.add i (.ret result)) s₃ →
        (result = true → s₃.observer.children c.pid = some c) ∧
        (result = false →
          (s.observer.children c.pid ≠ none ∧ s₃.observer = s.observer) ∨
          (s₃.observer.children = s.observer.children ∧
            s₃.observer.died = s.observer.died ++ [c]))) := by
  obtain ⟨hg, hacc⟩ := ObserverState.Accounted.run h
  refine ⟨fun hfree p => ?_, hacc.atMostOnce, ?_, ?_⟩
  · exact (hacc.ledger.free hfree).balance p
  · intro i c result s' hpc hret
    cases hret with
    | add hpc' hadd =>
      rw [hpc] at hpc'
      cases hpc'
      cases hadd with
      | invalidPid hpid => exact ⟨rfl, hpid, rfl⟩
  · intro i c s₁ ms s₂ result s₃ hpc hlock hrun hret
    -- `Inside` says what the call has done so far, from the lock to the return
    have hin : s₁.Inside i c s.observer := by
      refine ⟨hg.step hlock, ?_⟩
      cases hlock with
      | add hpc' hadd =>
        rw [hpc] at hpc'
        cases hpc'
        cases hadd with
        | lock _ hfree =>
          refine ⟨.locked c, Function.update_self .., rfl, ?_⟩
          show Observer.unlocked { s.observer with guard := some (.add i) } = s.observer
          unfold Observer.unlocked
          rw [← hfree]
    have hend : s₂.Inside i c s.observer :=
      hrun.invariant (P := fun t => t.Inside i c s.observer)
        (fun _ _ _ hstep ht => ht.step hstep.1 hstep.2) hin
    obtain ⟨htrue, hfalse⟩ := hend.ret hret
    refine ⟨fun hr => ?_, hfalse⟩
    rw [(htrue hr).2]
    exact Function.update_self ..

/-- A child is forked and a thread is about to add it. -/
def aboutToAdd : List ObserverLabel := [.kernel (.fork 7), .callAdd 0 (.forked 7 0)]

/-- The child ends between the insertion and the `waitpid`. -/
def missedByAdd : List ObserverLabel :=
  [.add 0 .insert, .kernel (.die 7 (.exited 0)),
    .add 0 (.wait (.changed 7 (.terminated (.exited 0)))), .add 0 .emit, .add 0 .erase]

theorem missedByAdd_call :
    ∃ s s₁ s₂ s₃, observerSystem.Run (.start .initOnly .initial) aboutToAdd s ∧
      s.adding 0 = some (.start (.forked 7 0)) ∧ s.observer.children 7 = none ∧
      observerSystem.step s (.add 0 .lock) s₁ ∧
      (observerSystem.restrict (NotReturning 0)).Run s₁ missedByAdd s₂ ∧
      observerSystem.step s₂ (.add 0 (.ret false)) s₃ :=
  ⟨_, _, _, _, .cons (.kernel (.fork (by decide) rfl)) (.cons (.callAdd rfl rfl) (.nil _)), rfl,
    rfl, .add rfl (.lock (by decide) rfl),
    .cons ⟨.add rfl (.insert rfl), nofun⟩
    (.cons ⟨.kernel (.die rfl nofun), nofun⟩
    (.cons ⟨.add rfl (.gone (.reap rfl rfl rfl) nofun), nofun⟩
    (.cons ⟨.add rfl .emit, nofun⟩
    (.cons ⟨.add rfl .erase, nofun⟩ (.nil _))))),
    .add rfl .unlock⟩

theorem missedByAdd_run :
    ∃ s, observerSystem.Run (.start .initOnly .initial)
        (aboutToAdd ++ .add 0 .lock :: missedByAdd ++ [.add 0 (.ret false)]) s ∧
      s.observer.guard = none ∧ s.observer.inserted = [.forked 7 0] :=
  ⟨_, .cons (.kernel (.fork (by decide) rfl)) (.cons (.callAdd rfl rfl)
    (.cons (.add rfl (.lock (by decide) rfl)) (.cons (.add rfl (.insert rfl))
    (.cons (.kernel (.die rfl nofun)) (.cons (.add rfl (.gone (.reap rfl rfl rfl) nofun))
    (.cons (.add rfl .emit) (.cons (.add rfl .erase) (.cons (.add rfl .unlock) (.nil _))))))))),
    rfl, rfl⟩

theorem deaths_accounted_missedByAdd :
    (∃ s, observerSystem.Run (.start .initOnly .initial)
        (aboutToAdd ++ .add 0 .lock :: missedByAdd ++ [.add 0 (.ret false)]) s ∧
      s.observer.announcements 7 + (if (s.observer.children 7).isSome then 1 else 0) = 1) ∧
    ∃ s s₁ s₂ s₃, observerSystem.Run (.start .initOnly .initial) aboutToAdd s ∧
      observerSystem.step s (.add 0 .lock) s₁ ∧
      (observerSystem.restrict (NotReturning 0)).Run s₁ missedByAdd s₂ ∧
      observerSystem.step s₂ (.add 0 (.ret false)) s₃ ∧
      s₃.observer.children = s.observer.children ∧
      s₃.observer.died = s.observer.died ++ [.forked 7 0] := by
  obtain ⟨t, hrun, hfree, hins⟩ := missedByAdd_run
  obtain ⟨s, s₁, s₂, s₃, hstart, hpc, hnew, hlock, hcall, hret⟩ := missedByAdd_call
  refine ⟨⟨t, hrun, ?_⟩, s, s₁, s₂, s₃, hstart, hlock, hcall, hret, ?_⟩
  · rw [(deaths_accounted _ _ t hrun).1 hfree 7, Observer.insertions, hins]
    rfl
  · obtain ⟨-, hfalse⟩ :=
      (deaths_accounted _ _ s hstart).2.2.2 0 _ s₁ _ s₂ false s₃ hpc hlock hcall hret
    rcases hfalse rfl with ⟨hpresent, -⟩ | houtcome
    · exact absurd hnew hpresent
    · exact houtcome

end ProcessCpp.Core
