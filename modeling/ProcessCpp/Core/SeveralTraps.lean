import ProcessCpp.Base.Prelude
import ProcessCpp.Core.SessionSignals

/-!
# Several traps in one process (signal.cpp:101–185)

The results about sessions are about one trap. A process may have more: the header offers
traps for the process and for single threads, and each of them opens a signalfd of its own
in `run`. But there is one set of pending signals, and a record that one signalfd hands out
is gone for the others. Between the `poll` and the `read` of a session, another trap may take
what made the signalfd readable; then the read fails, and the record loop has the bound of
`loopBound_failed`.

- `TrapsState`, `trapsSystem`: traps that run their sessions side by side, one at a time each,
  and see the pending signals of their own sets, `TrapsState.view`;
- `Apart`: no two traps have a signal in common;
- `traps_independent_iff`: each trap runs as if it were alone, and all reads succeed, if and
  only if the traps are apart;
- `signals_emitted_once`: then nothing is lost and nothing is emitted twice, and each signal
  is emitted by its own trap.
-/

namespace ProcessCpp.Core

open ProcessCpp.Base ProcessCpp.Posix

/-! ## The process -/

/-- The pending signals of a process, and its traps. What a trap keeps in its field `pending`
is of no account: `TrapsState.view` replaces it. -/
structure TrapsState (ι : Type) where
  pending : Multiset ℕ
  sessions : ι → Sessions

/-- What a trap does, and what is done to it alone. -/
inductive OwnLabel where
  | stop
  | run
  | call (l : CallLabel)

def OwnLabel.toSession : OwnLabel → SessionLabel
  | .stop => .outside .stop
  | .run => .run
  | .call l => .call l

/-- A signal comes to the process, or a trap moves. -/
inductive TrapsLabel (ι : Type) where
  | raise (n : ℕ)
  | trap (i : ι) (l : OwnLabel)

/-- A read of a signalfd fails only because there is nothing to read. -/
def FailsWhenEmpty (s : Sessions) (l : SessionLabel) : Prop :=
  ∀ e, l = .call (.loop (.read (.failed e))) → e = .eagain ∧ s.shared.pending = 0

namespace TrapsState

variable {ι : Type} [DecidableEq ι] (traps : ι → SignalTrap)

/-- A process with new traps. -/
def start : TrapsState ι := ⟨0, fun _ => .start⟩

/-- Trap `i` as it is: its signalfd shows the pending signals of its own set. -/
def view (s : TrapsState ι) (i : ι) : Sessions :=
  { s.sessions i with shared :=
      { (s.sessions i).shared with
        pending := s.pending.filter (· ∈ (traps i).blockedSignalsMask) } }

/-- Trap `i` has moved to `y`: what it has taken is gone from the process. -/
def put (s : TrapsState ι) (i : ι) (y : Sessions) : TrapsState ι where
  pending := y.shared.pending + s.pending.filter (· ∉ (traps i).blockedSignalsMask)
  sessions := Function.update s.sessions i y

/-- A signal becomes pending, which all traps see that have it. -/
def raise (s : TrapsState ι) (n : ℕ) : TrapsState ι where
  pending := if n < 32 ∧ n ∈ s.pending then s.pending else n ::ₘ s.pending
  sessions := fun i =>
    if n ∈ (traps i).blockedSignalsMask then
      { s.sessions i with shared := (s.view traps i).shared.raise n }
    else
      s.sessions i

end TrapsState

section

variable {ι : Type} [DecidableEq ι] (traps : ι → SignalTrap)

/-- A signal that some trap has and that the kernel can keep pending; or a step of a trap. -/
inductive TrapsStep (s : TrapsState ι) : TrapsLabel ι → TrapsState ι → Prop where
  | raise {i n} (hmem : n ∈ (traps i).blockedSignalsMask) (hmask : n ∉ unmaskable) :
      TrapsStep s (.raise n) (s.raise traps n)
  | trap {i l y} (h : SessionStep (traps i) (s.view traps i) l.toSession y)
      (hread : FailsWhenEmpty (s.view traps i) l.toSession) :
      TrapsStep s (.trap i l) (s.put traps i y)

def trapsSystem : LTS (TrapsState ι) (TrapsLabel ι) where
  step := TrapsStep traps

/-- No two traps have a signal in common that can be pending. -/
def Apart : Prop :=
  ∀ i j, i ≠ j → ∀ n ∈ (traps i).blockedSignalsMask, n ∈ (traps j).blockedSignalsMask →
    n ∈ unmaskable

/-- What trap `i` notices of a step. -/
def TrapsLabel.seenBy (i : ι) : TrapsLabel ι → Option SessionLabel
  | .raise n => if n ∈ (traps i).blockedSignalsMask then some (.outside (.raise n)) else none
  | .trap j l => if j = i then some l.toSession else none

end

theorem TrapsLabel.seenBy_eq_some {ι : Type} [DecidableEq ι] {traps : ι → SignalTrap} {i : ι}
    {a : TrapsLabel ι} {l : SessionLabel} (h : a.seenBy traps i = some l) :
    (∃ n, a = .raise n ∧ n ∈ (traps i).blockedSignalsMask ∧ l = .outside (.raise n)) ∨
      ∃ own, a = .trap i own ∧ l = own.toSession := by
  cases a with
  | raise n =>
    obtain ⟨hn, hl⟩ := Option.ite_none_right_eq_some.mp h
    exact .inl ⟨n, rfl, hn, (Option.some.inj hl).symm⟩
  | trap j own =>
    obtain ⟨rfl, hl⟩ := Option.ite_none_right_eq_some.mp h
    exact .inr ⟨own, rfl, (Option.some.inj hl).symm⟩

/-! ## Traps that are apart -/

/-- A step of a trap, and `stop`, add nothing to what is pending. -/
theorem SessionStep.pending_le {trap : SignalTrap} {s s' : Sessions} {l : OwnLabel}
    (h : SessionStep trap s l.toSession s') : s'.shared.pending ≤ s.shared.pending := by
  cases l with
  | stop =>
    cases h with
    | outside h =>
      cases h with
      | stop h =>
        rw [TrapShared.stop_eq_ok h]
      | stopThrows => exact le_rfl
  | run =>
    cases h with
    | run => exact le_rfl
  | call l =>
    cases h with
    | call hpc h =>
      cases h with
      | loop hne hrun hk =>
        rw [hk.taken.2]
        exact Multiset.le_add_left ..
      | _ => exact le_rfl

namespace TrapsState

variable {ι : Type} {traps : ι → SignalTrap} {s s' : TrapsState ι} {i j : ι}

theorem mem_of_view {n : ℕ} (hn : n ∈ (s.view traps i).shared.pending) :
    n ∈ s.pending ∧ n ∈ (traps i).blockedSignalsMask :=
  Multiset.mem_filter.mp hn

theorem view_eq {y : Sessions} (hsession : s.sessions i = y)
    (hpending : s.pending.filter (· ∈ (traps i).blockedSignalsMask) = y.shared.pending) :
    s.view traps i = y := by
  unfold view
  rw [hsession, hpending]

theorem view_congr (hsession : s'.sessions i = s.sessions i)
    (hpending : s'.pending.filter (· ∈ (traps i).blockedSignalsMask) =
      s.pending.filter (· ∈ (traps i).blockedSignalsMask)) :
    s'.view traps i = s.view traps i := by
  unfold view
  rw [hsession, hpending]

theorem view_raise_of_mem {n : ℕ} (hn : n ∈ (traps i).blockedSignalsMask) :
    (s.raise traps n).view traps i =
      { s.view traps i with shared := (s.view traps i).shared.raise n } := by
  have hsession : (s.raise traps n).sessions i =
      { s.view traps i with shared := (s.view traps i).shared.raise n } := if_pos hn
  have hsees : n ∈ (s.view traps i).shared.pending ↔ n ∈ s.pending :=
    Multiset.mem_filter.trans (and_iff_left hn)
  have hpending : (s.raise traps n).pending.filter (· ∈ (traps i).blockedSignalsMask) =
      ((s.view traps i).shared.raise n).pending := by
    unfold TrapShared.raise
    show Multiset.filter _ (if _ then _ else _) = _
    by_cases hmerged : n < 32 ∧ n ∈ s.pending
    · rw [if_pos hmerged, if_pos ⟨hmerged.1, hsees.mpr hmerged.2⟩]
      rfl
    · rw [if_neg hmerged, if_neg fun h => hmerged ⟨h.1, hsees.mp h.2⟩]
      exact Multiset.filter_cons_of_pos _ hn
  exact view_eq hsession hpending

theorem view_raise_of_notMem {n : ℕ} (hn : n ∉ (traps i).blockedSignalsMask) :
    (s.raise traps n).view traps i = s.view traps i := by
  refine view_congr (if_neg hn) ?_
  show Multiset.filter _ (if _ then _ else _) = _
  split
  · rfl
  · exact Multiset.filter_cons_of_neg _ hn

variable [DecidableEq ι]

theorem view_put_self {y : Sessions}
    (hy : ∀ n ∈ y.shared.pending, n ∈ (traps i).blockedSignalsMask) :
    (s.put traps i y).view traps i = y := by
  have hpending : (s.put traps i y).pending.filter (· ∈ (traps i).blockedSignalsMask) =
      y.shared.pending := by
    have hothers : (s.pending.filter (· ∉ (traps i).blockedSignalsMask)).filter
        (· ∈ (traps i).blockedSignalsMask) = 0 := by
      rw [Multiset.filter_eq_nil]
      exact fun n hn => (Multiset.mem_filter.mp hn).2
    show Multiset.filter _ (_ + _) = _
    rw [Multiset.filter_add, Multiset.filter_eq_self.mpr hy, hothers, Multiset.add_zero]
  exact view_eq (Function.update_self ..) hpending

/-- A trap that has nothing in common with trap `i` sees nothing of its steps. -/
theorem view_put_of_ne {y : Sessions} (hij : j ≠ i)
    (hy : y.shared.pending ≤ (s.view traps i).shared.pending)
    (hapart : ∀ n ∈ s.pending, n ∈ (traps i).blockedSignalsMask →
      n ∉ (traps j).blockedSignalsMask) :
    (s.put traps i y).view traps j = s.view traps j := by
  refine view_congr (Function.update_of_ne hij ..) ?_
  have hown : ∀ x ≤ (s.view traps i).shared.pending,
      x.filter (· ∈ (traps j).blockedSignalsMask) = 0 := by
    intro x hx
    rw [Multiset.filter_eq_nil]
    intro n hn
    obtain ⟨hpending, hmem⟩ := mem_of_view (Multiset.mem_of_le hx hn)
    exact hapart n hpending hmem
  have hsplit := Multiset.filter_add_not (· ∈ (traps i).blockedSignalsMask) s.pending
  show Multiset.filter _ (_ + _) = _
  rw [Multiset.filter_add, hown _ hy]
  conv_rhs => rw [← hsplit, Multiset.filter_add]
  exact congrArg (· + _) (hown _ le_rfl).symm

/-- Everything that is pending is a signal that the kernel can keep pending. -/
def Maskable (s : TrapsState ι) : Prop := ∀ n ∈ s.pending, n ∉ unmaskable

theorem Maskable.step {a : TrapsLabel ι} (hs : s.Maskable) (h : TrapsStep traps s a s') :
    s'.Maskable := by
  cases h with
  | @raise _ n hmem hmask =>
    intro m hm
    have hm : m ∈ if n < 32 ∧ n ∈ s.pending then s.pending else n ::ₘ s.pending := hm
    split at hm
    · exact hs m hm
    · rcases Multiset.mem_cons.mp hm with rfl | hm
      · exact hmask
      · exact hs m hm
  | trap h =>
    intro m hm
    rcases Multiset.mem_add.mp hm with hm | hm
    · exact hs m (mem_of_view (Multiset.mem_of_le h.pending_le hm)).1
    · exact hs m (Multiset.mem_filter.mp hm).1

/-- What a trap notices of a step is a step of its own. -/
theorem step_of_seen {a : TrapsLabel ι} {l : SessionLabel} (h : TrapsStep traps s a s')
    (ha : a.seenBy traps i = some l) :
    SessionStep (traps i) (s.view traps i) l (s'.view traps i) ∧
      FailsWhenEmpty (s.view traps i) l := by
  rcases TrapsLabel.seenBy_eq_some ha with ⟨n, rfl, hn, rfl⟩ | ⟨own, rfl, rfl⟩
  · cases h with
    | raise _ hmask =>
      rw [view_raise_of_mem hn]
      exact ⟨.outside (.raise hn hmask), nofun⟩
  · cases h with
    | trap h hread =>
      rw [view_put_self fun n hn => (mem_of_view (Multiset.mem_of_le h.pending_le hn)).2]
      exact ⟨h, hread⟩

/-- Of the steps of the others it notices nothing. -/
theorem view_of_unseen (hapart : Apart traps) (hs : s.Maskable) {a : TrapsLabel ι}
    (h : TrapsStep traps s a s') (ha : a.seenBy traps i = none) :
    s'.view traps i = s.view traps i := by
  cases h with
  | raise =>
    refine view_raise_of_notMem fun hn => ?_
    cases (if_pos hn).symm.trans ha
  | @trap j own y h hread =>
    have hji : j ≠ i := by
      intro hji
      cases (if_pos hji).symm.trans ha
    refine view_put_of_ne hji.symm h.pending_le fun n hn hmem hboth => ?_
    exact hs n hn (hapart j i hji n hmem hboth)

end TrapsState

/-! ## One trap alone -/

/-- A trap whose reads fail only when there is nothing to read. -/
def aloneSystem (trap : SignalTrap) : LTS Sessions SessionLabel :=
  (sessionSystem trap).restrict FailsWhenEmpty

/-- What `poll` has seen is there until it is read. -/
def Sessions.ReadyToRead (s : Sessions) : Prop :=
  ∀ t seen event, s.call = some (.loop t seen) → t.pc = .read event → s.shared.pending ≠ 0

theorem CallStep.readyToRead {trap : SignalTrap} {s s' : TrapShared} {pc : CallPc} {l : CallLabel}
    {call : Option CallPc} (h : CallStep trap s pc l s' call) :
    Sessions.ReadyToRead ⟨s', call⟩ := by
  intro t' seen' event hcall hpc'
  cases h with
  | admitted | refused | store | openFailed | throws | leave | close => cases hcall
  | opened =>
    cases hcall
    cases hpc'
  | readEvent =>
    cases hcall
    cases hpc'
  | @loop t t' seen l s' hne hrun hk =>
    cases hcall
    cases hrun with
    | interrupted hpc | timeout hpc => cases hpc.symm.trans hpc'
    | signalReady =>
      cases hk with
      | ready hsignal => exact hsignal.mp rfl
    | pollFailed | signalIdle | read | iterate | loopDone | stopped | again => cases hpc'

theorem SessionStep.readyToRead {trap : SignalTrap} {s s' : Sessions} {l : SessionLabel}
    (h : SessionStep trap s l s') (hs : s.ReadyToRead) : s'.ReadyToRead := by
  cases h with
  | outside h =>
    intro t seen event hcall hpc
    have hpending := hs t seen event hcall hpc
    rcases h.cases with rfl | rfl | ⟨n, -, rfl⟩
    · exact hpending
    · exact hpending
    · exact Multiset.cons_ne_zero
  | run => exact nofun
  | call _ h => exact h.readyToRead

/-- Alone, a trap never fails to read. -/
theorem reads_succeed {trap : SignalTrap} {ls : List SessionLabel} {s : Sessions}
    (h : (aloneSystem trap).Run .start ls s) (e : Errno) :
    .call (.loop (.read (.failed e))) ∉ ls := by
  refine (h.history (P := fun ls s => s.ReadyToRead ∧
    .call (.loop (.read (.failed e))) ∉ ls) ?_ ⟨nofun, List.not_mem_nil⟩).2
  rintro before x l y ⟨hstep, hempty⟩ ⟨hready, hnone⟩
  refine ⟨hstep.readyToRead hready, fun hmem => ?_⟩
  rcases List.mem_append.mp hmem with hmem | hmem
  · exact hnone hmem
  · obtain rfl := List.mem_singleton.mp hmem
    obtain ⟨-, hzero⟩ := hempty e rfl
    cases hstep with
    | call hpc h =>
      cases h with
      | loop hne hrun hk =>
        cases hrun with
        | read hread => exact hready _ _ _ hpc hread hzero

section

variable {ι : Type} [DecidableEq ι] {traps : ι → SignalTrap}

/-- Traps that are apart run as if each of them were alone. -/
theorem alone_of_apart (hapart : Apart traps) {ls : List (TrapsLabel ι)} {s : TrapsState ι}
    (h : (trapsSystem traps).Run .start ls s) (i : ι) :
    (aloneSystem (traps i)).Run .start (ls.filterMap (TrapsLabel.seenBy traps i))
      (s.view traps i) := by
  refine h.project (f := fun s => s.view traps i) (Q := TrapsState.Maskable)
    (fun _ _ _ hstep hx => hx.step hstep) ?_ ?_ nofun
  · exact fun _ _ _ _ hstep _ ha => TrapsState.step_of_seen hstep ha
  · exact fun _ _ _ hstep hx ha => TrapsState.view_of_unseen hapart hx hstep ha

/-! ## Traps with a signal in common -/

/-- The other way round: what a trap can do alone it can do beside the others, who stay where
they are. -/
theorem run_of_session {i : ι} {s : TrapsState ι} {y : Sessions} {ls : List OwnLabel}
    (h : (sessionSystem (traps i)).Run (s.view traps i) (ls.map OwnLabel.toSession) y)
    (hreads : ∀ e, .call (.loop (.read (.failed e))) ∉ ls) :
    ∃ s', (trapsSystem traps).Run s (ls.map (.trap i)) s' ∧ s'.view traps i = y ∧
      (∀ j, j ≠ i → s'.sessions j = s.sessions j) ∧
      s'.pending = y.shared.pending + s.pending.filter (· ∉ (traps i).blockedSignalsMask) := by
  induction ls generalizing s with
  | nil =>
    cases h
    refine ⟨s, .nil _, rfl, fun _ _ => rfl, ?_⟩
    exact (Multiset.filter_add_not (· ∈ (traps i).blockedSignalsMask) s.pending).symm
  | cons l ls ih =>
    cases h with
    | @cons _ x _ _ _ hstep hrest =>
      have hstep : SessionStep (traps i) (s.view traps i) l.toSession x := hstep
      have hx : ∀ n ∈ x.shared.pending, n ∈ (traps i).blockedSignalsMask := fun n hn =>
        (TrapsState.mem_of_view (Multiset.mem_of_le hstep.pending_le hn)).2
      have hempty : FailsWhenEmpty (s.view traps i) l.toSession := by
        intro e he
        refine absurd (List.mem_cons.mpr (.inl ?_)) (hreads e)
        cases l <;> cases he
        rfl
      obtain ⟨s', hrun, hview, hothers, hpending⟩ := ih (s := s.put traps i x)
        (by rwa [TrapsState.view_put_self hx]) fun e he => hreads e (List.mem_cons_of_mem _ he)
      refine ⟨s', .cons (.trap hstep hempty) hrun, hview, fun j hj => ?_, ?_⟩
      · exact (hothers j hj).trans (Function.update_of_ne hj ..)
      · rw [hpending]
        refine congrArg (y.shared.pending + ·) ?_
        show Multiset.filter _ (_ + _) = _
        rw [Multiset.filter_add, Multiset.filter_eq_nil.mpr fun n hn => not_not.mpr (hx n hn),
          Multiset.zero_add, Multiset.filter_filter]
        exact Multiset.filter_congr fun n _ => and_self_iff

/-- A session, up to its first read. -/
def beginRead : List OwnLabel :=
  [.run, .call .load, .call .store, .call .openFd, .call (.loop (.poll (.ready true false)))]

/-- The trap is not running and has not been stopped. -/
def Sessions.AtRest (y : Sessions) : Prop :=
  y.call = none ∧ y.shared.state = .notRunning ∧ y.shared.eventCount = 0

/-- The session is about to read its signalfd. -/
def Sessions.AtRead (y : Sessions) : Prop :=
  ∃ t seen, y.call = some (.loop t seen) ∧ t.pc = .read false

theorem beginRead_run (trap : SignalTrap) {x : Sessions} (hrest : x.AtRest)
    (hpending : x.shared.pending ≠ 0) :
    ∃ y, (sessionSystem trap).Run x (beginRead.map OwnLabel.toSession) y ∧ y.AtRead ∧
      y.shared.pending = x.shared.pending := by
  obtain ⟨shared, call⟩ := x
  obtain ⟨rfl, hstate, hevent⟩ : call = none ∧ shared.state = .notRunning ∧
    shared.eventCount = 0 := hrest
  have hadmitted : shared.state ≠ .running := by
    rw [hstate]
    decide
  have hidle : false = true ↔ 0 < shared.eventCount := by
    rw [hevent]
    decide
  refine ⟨_, .cons (.run rfl) <| .cons (.call rfl (.admitted hadmitted)) <|
    .cons (.call rfl .store) <| .cons (.call rfl (@CallStep.opened _ _ fun _ => 0)) <|
    .cons (.call rfl (.loop nofun (.signalReady rfl)
      (.ready (iff_of_true rfl hpending) hidle (.inl rfl)))) (.nil _), ⟨_, _, rfl, rfl⟩, rfl⟩

theorem oneRecord_fits (n : ℕ) : 0 < [n].length ∧ [n].length ≤ signalInfoBufferSize := by
  show 0 < 1 ∧ 1 ≤ 5
  omega

section

variable {s : TrapsState ι} {i : ι} {n : ℕ}

omit [DecidableEq ι] in
/-- The one signal that is pending is one of trap `i`. -/
theorem pending_filter_one (hpending : s.pending = {n})
    (hi : n ∈ (traps i).blockedSignalsMask) :
    s.pending.filter (· ∈ (traps i).blockedSignalsMask) = {n} ∧
      s.pending.filter (· ∉ (traps i).blockedSignalsMask) = 0 := by
  rw [hpending, Multiset.filter_eq_self, Multiset.filter_eq_nil]
  constructor
  · intro m hm
    rwa [Multiset.mem_singleton.mp hm]
  · intro m hm
    rwa [Multiset.mem_singleton.mp hm, not_not]

theorem begins_to_read (hrest : (s.sessions i).AtRest) (hpending : s.pending = {n})
    (hi : n ∈ (traps i).blockedSignalsMask) :
    ∃ s', (trapsSystem traps).Run s (beginRead.map (.trap i)) s' ∧ (s'.sessions i).AtRead ∧
      (∀ j, j ≠ i → s'.sessions j = s.sessions j) ∧ s'.pending = {n} := by
  obtain ⟨hsees, hothers⟩ := pending_filter_one hpending hi
  have hone : (s.view traps i).shared.pending = {n} := hsees
  have hsome : (s.view traps i).shared.pending ≠ 0 := by
    rw [hone]
    exact Multiset.singleton_ne_zero n
  obtain ⟨y, hrun, hread, hkept⟩ := beginRead_run (traps i) (x := s.view traps i) hrest hsome
  obtain ⟨s', hrun', hview, hstay, hpending'⟩ := run_of_session hrun (by simp [beginRead])
  refine ⟨s', hrun', ?_, hstay, ?_⟩
  · rw [← hview] at hread
    exact hread
  · rw [hpending', hothers, hkept, hone, Multiset.add_zero]

/-- The session that reads first takes the signal. -/
theorem takes_signal (hread : (s.sessions i).AtRead) (hpending : s.pending = {n})
    (hi : n ∈ (traps i).blockedSignalsMask) :
    ∃ ls s', (trapsSystem traps).Run s ls s' ∧ (∀ j, j ≠ i → s'.sessions j = s.sessions j) ∧
      s'.pending = 0 := by
  obtain ⟨hsees, hothers⟩ := pending_filter_one hpending hi
  have hone : (s.view traps i).shared.pending = {n} := hsees
  obtain ⟨t, seen, hcall, hpc⟩ := hread
  have hreading : t.pc ≠ .checkEvent true := by
    rw [hpc]
    nofun
  have hmost : [n].length = min signalInfoBufferSize (s.view traps i).shared.pending.card := by
    rw [hone]
    rfl
  have hrun : (sessionSystem (traps i)).Run (s.view traps i)
      ([.call (.loop (.read (.records [n] (oneRecord_fits n))))].map OwnLabel.toSession) _ :=
    .cons (.call hcall (.loop hreading (.read hpc)
      (@TrapShared.Answers.records _ _ _ 0 hone hmost))) (.nil _)
  obtain ⟨s', hrun', -, hstay, hpending'⟩ := run_of_session hrun (by simp)
  refine ⟨_, s', hrun', hstay, ?_⟩
  rw [hpending', hothers]
  rfl

/-- The other one finds nothing. -/
theorem finds_nothing (hread : (s.sessions i).AtRead) (hpending : s.pending = 0) :
    ∃ s', TrapsStep traps s (.trap i (.call (.loop (.read (.failed .eagain))))) s' := by
  have hnone : (s.view traps i).shared.pending = 0 := by
    show Multiset.filter _ s.pending = 0
    rw [hpending]
    rfl
  obtain ⟨t, seen, hcall, hpc⟩ := hread
  have hreading : t.pc ≠ .checkEvent true := by
    rw [hpc]
    nofun
  refine ⟨_, .trap (.call hcall (.loop hreading (.read hpc) .readFailed)) ?_⟩
  intro e he
  cases he
  exact ⟨rfl, hnone⟩

omit [DecidableEq ι] in
theorem atRest_raise : ((TrapsState.start.raise traps n).sessions i).AtRest := by
  have hraised : (TrapShared.start.raise n).state = .notRunning ∧
      (TrapShared.start.raise n).eventCount = 0 := by
    rcases TrapShared.start.raise_cases n with h | h
    · rw [h]
      exact ⟨rfl, rfl⟩
    · rw [h]
      exact ⟨rfl, rfl⟩
  show Sessions.AtRest (if _ then _ else _)
  split
  · exact ⟨rfl, hraised⟩
  · exact ⟨rfl, rfl, rfl⟩

/-- **Two sessions are told of one signal**: both polls answer before either session reads. -/
theorem read_fails {j : ι} (hij : i ≠ j) (hi : n ∈ (traps i).blockedSignalsMask)
    (hj : n ∈ (traps j).blockedSignalsMask) (hmask : n ∉ unmaskable) :
    ∃ ls s, (trapsSystem traps).Run .start ls s ∧
      .trap j (.call (.loop (.read (.failed .eagain)))) ∈ ls := by
  have hpending₁ : (TrapsState.start.raise traps n).pending = {n} :=
    if_neg fun h => Multiset.notMem_zero n h.2
  obtain ⟨s₂, hrun₂, hread₂, hstay₂, hpending₂⟩ := begins_to_read atRest_raise hpending₁ hi
  have hrest : (s₂.sessions j).AtRest := by
    rw [hstay₂ j hij.symm]
    exact atRest_raise
  obtain ⟨s₃, hrun₃, hread₃, hstay₃, hpending₃⟩ := begins_to_read hrest hpending₂ hj
  rw [← hstay₃ i hij] at hread₂
  obtain ⟨ls, s₄, hrun₄, hstay₄, hpending₄⟩ := takes_signal hread₂ hpending₃ hi
  rw [← hstay₄ j hij.symm] at hread₃
  obtain ⟨s₅, hstep⟩ : ∃ s₅, TrapsStep traps s₄ _ s₅ := finds_nothing hread₃ hpending₄
  have hrun := (hrun₂.append hrun₃).append (hrun₄.append (.cons hstep (.nil _)))
  exact ⟨_, s₅, .cons (.raise hi hmask) hrun, by simp⟩

end

end

/-- **When traps do not disturb one another**: in every run of a process with several traps,
each trap runs as it would run alone, with the signals of its own set, and none of its reads
fails, if and only if no two traps have a signal in common. -/
theorem traps_independent_iff {ι : Type} [DecidableEq ι] (traps : ι → SignalTrap) :
    (∀ ls s, (trapsSystem traps).Run .start ls s → ∀ i,
        (sessionSystem (traps i)).Run .start (ls.filterMap (TrapsLabel.seenBy traps i))
            (s.view traps i) ∧
          ∀ e, .trap i (.call (.loop (.read (.failed e)))) ∉ ls) ↔
      Apart traps := by
  constructor
  · intro hall i j hij n hi hj
    by_contra hmask
    obtain ⟨ls, s, hrun, hfailed⟩ := read_fails hij hi hj hmask
    exact (hall ls s hrun j).2 .eagain hfailed
  · intro hapart ls s hrun i
    have halone := alone_of_apart hapart hrun i
    refine ⟨halone.of_restrict, fun e he => reads_succeed halone e ?_⟩
    exact List.mem_filterMap.mpr ⟨_, he, if_pos rfl⟩

/-! ## Every signal once -/

/-- Where a signal can be: it is pending, it is among the records in hand, or it has been
emitted. -/
def Sessions.account (s : Sessions) (n : ℕ) : Nat :=
  s.shared.pending.count n + (CallPc.undispatched s.call).count n +
    s.shared.raised.count (toSignal n)

def SessionLabel.raises (n : ℕ) : SessionLabel → Bool
  | .outside (.raise m) => m == n
  | _ => false

def TrapsLabel.raises {ι : Type} (n : ℕ) : TrapsLabel ι → Bool
  | .raise m => m == n
  | .trap _ _ => false

theorem toSignal_injective : Function.Injective toSignal := by
  intro m n h
  exact Int.ofNat_inj.mp (congrArg Signal.toInt h)

section

variable {trap : SignalTrap} {s s' : Sessions} {l : SessionLabel} {n : ℕ}

theorem Sessions.SignalsKept.account_eq (hs : s.SignalsKept trap) :
    s.account n = s.shared.queued.count n := by
  have hremoved : s.shared.removed.count n =
      s.shared.raised.count (toSignal n) + (CallPc.undispatched s.call).count n := by
    rw [← List.count_map_of_injective _ _ toSignal_injective, hs.order, List.count_append,
      List.count_map_of_injective _ _ toSignal_injective]
  rw [hs.balance, Multiset.count_add, Multiset.coe_count, hremoved]
  unfold Sessions.account
  omega

/-- A step of the trap does not touch what has been queued, and a signal that arrives is
queued unless it is merged with one that is pending. -/
theorem SessionStep.queued_cases (h : SessionStep trap s l s') :
    (∃ m, l = .outside (.raise m) ∧ (s'.shared.queued = m ::ₘ s.shared.queued ∨
        s'.shared.queued = s.shared.queued ∧ m < 32 ∧ m ∈ s.shared.pending)) ∨
      (∀ m, l ≠ .outside (.raise m)) ∧ s'.shared.queued = s.shared.queued := by
  cases h with
  | outside h =>
    cases h with
    | stop h =>
      rw [TrapShared.stop_eq_ok h]
      exact .inr ⟨nofun, rfl⟩
    | stopThrows => exact .inr ⟨nofun, rfl⟩
    | @raise m =>
      refine .inl ⟨m, rfl, ?_⟩
      show (s.shared.raise m).queued = _ ∨ (s.shared.raise m).queued = _ ∧ _
      unfold TrapShared.raise
      split
      next hmerged => exact .inr ⟨rfl, hmerged⟩
      next => exact .inl rfl
  | run => exact .inr ⟨nofun, rfl⟩
  | call _ h =>
    refine .inr ⟨nofun, ?_⟩
    cases h with
    | loop _ _ hk => rw [hk.eq_of_taken]
    | _ => rfl

/-- The signals of a run and what was queued: a signal that is merged is pending. -/
structure Sessions.Counted (s : Sessions) (n raises : ℕ) : Prop where
  le : s.shared.queued.count n ≤ raises
  eq : 32 ≤ n → s.shared.queued.count n = raises
  pos : 0 < raises → 0 < s.shared.queued.count n

theorem SessionLabel.raises_iff : l.raises n = true ↔ l = .outside (.raise n) := by
  unfold SessionLabel.raises
  split
  next m => simp
  next hl =>
    constructor
    · nofun
    · exact fun h => absurd h (hl n)

theorem Sessions.Counted.step {raises : ℕ} (hc : s.Counted n raises) (hs : s.SignalsKept trap)
    (h : SessionStep trap s l s') : s'.Counted n (raises + if l.raises n then 1 else 0) := by
  have hle := hc.le
  by_cases hl : l.raises n = true
  · rw [if_pos hl]
    obtain rfl := SessionLabel.raises_iff.mp hl
    rcases h.queued_cases with ⟨m, hm, hqueued⟩ | ⟨hnone, -⟩
    · cases hm
      rcases hqueued with hqueued | ⟨hqueued, hstandard, hpending⟩
      · have hcount : s'.shared.queued.count n = s.shared.queued.count n + 1 := by
          rw [hqueued, Multiset.count_cons_self]
        refine ⟨by omega, fun hn => ?_, fun _ => by omega⟩
        have heq := hc.eq hn
        omega
      · -- it was pending, so it had been queued
        have hpos : 0 < s.shared.queued.count n := by
          rw [Multiset.count_pos, hs.balance]
          exact Multiset.mem_add.mpr (.inr hpending)
        rw [← hqueued] at hle hpos
        exact ⟨by omega, fun hn => by omega, fun _ => hpos⟩
    · exact absurd rfl (hnone n)
  · rw [if_neg hl]
    have hcount : s'.shared.queued.count n = s.shared.queued.count n := by
      rcases h.queued_cases with ⟨m, rfl, hqueued⟩ | ⟨-, hqueued⟩
      · have hm : n ≠ m := by
          rintro rfl
          exact hl (SessionLabel.raises_iff.mpr rfl)
        rcases hqueued with hqueued | ⟨hqueued, -⟩
        · rw [hqueued, Multiset.count_cons_of_ne hm]
        · rw [hqueued]
      · rw [hqueued]
    exact ⟨by omega, fun hn => hcount.trans (hc.eq hn), fun hpos => hcount ▸ hc.pos hpos⟩

theorem counted_run {ls : List SessionLabel} (h : (sessionSystem trap).Run .start ls s)
    (hls : ∀ l ∈ ls, ReadsAndReturns l) (n : ℕ) :
    s.SignalsKept trap ∧ s.Counted n (ls.countP (SessionLabel.raises n)) := by
  refine (h.restrict_of_forall hls).history (P := fun ls s => s.SignalsKept trap ∧
    s.Counted n (ls.countP (SessionLabel.raises n))) ?_
    ⟨.start, le_rfl, fun _ => rfl, fun h => absurd h (Nat.lt_irrefl 0)⟩
  rintro before x l y ⟨hstep, hl⟩ ⟨hkept, hcounted⟩
  rw [List.countP_append, List.countP_singleton]
  exact ⟨hstep.signalsKept hkept hl, hcounted.step hkept hstep⟩

end

theorem readsAndReturns_of {ls : List SessionLabel}
    (hreads : ∀ e, .call (.loop (.read (.failed e))) ∉ ls)
    (hreturns : .call (.ends .subscriberThrew) ∉ ls) : ∀ l ∈ ls, ReadsAndReturns l := by
  intro l hl
  unfold ReadsAndReturns
  split
  next e => exact hreads e hl
  next => exact hreturns hl
  next => trivial

section

variable {ι : Type} [DecidableEq ι] {traps : ι → SignalTrap} {i : ι} {n : ℕ}
  {ls : List (TrapsLabel ι)}

omit [DecidableEq ι] in
theorem TrapsLabel.raises_iff {a : TrapsLabel ι} : a.raises n = true ↔ a = .raise n := by
  cases a <;> simp [TrapsLabel.raises]

/-- A trap notices a signal when it comes and the trap has it. -/
theorem TrapsLabel.seenBy_eq_raise_iff {a : TrapsLabel ι} :
    a.seenBy traps i = some (.outside (.raise n)) ↔
      a = .raise n ∧ n ∈ (traps i).blockedSignalsMask := by
  constructor
  · intro h
    rcases TrapsLabel.seenBy_eq_some h with ⟨m, rfl, hm, ⟨⟩⟩ | ⟨own, -, hown⟩
    · exact ⟨rfl, hm⟩
    · cases own <;> cases hown
  · rintro ⟨rfl, hn⟩
    exact if_pos hn

theorem countP_seenBy (hn : n ∈ (traps i).blockedSignalsMask) :
    (ls.filterMap (TrapsLabel.seenBy traps i)).countP (SessionLabel.raises n) =
      ls.countP (TrapsLabel.raises n) := by
  rw [List.countP_filterMap]
  refine List.countP_congr fun a _ => ?_
  have hseen : a.raises n = true ↔ a.seenBy traps i = some (.outside (.raise n)) := by
    rw [TrapsLabel.raises_iff, TrapsLabel.seenBy_eq_raise_iff, and_iff_left hn]
  rw [hseen]
  cases a.seenBy traps i with
  | none => simp
  | some l => simp [SessionLabel.raises_iff]

theorem countP_seenBy_of_notMem (hn : n ∉ (traps i).blockedSignalsMask) :
    (ls.filterMap (TrapsLabel.seenBy traps i)).countP (SessionLabel.raises n) = 0 := by
  rw [List.countP_eq_zero]
  intro l hl hraises
  obtain rfl := SessionLabel.raises_iff.mp hraises
  obtain ⟨a, -, ha⟩ := List.mem_filterMap.mp hl
  exact hn (TrapsLabel.seenBy_eq_raise_iff.mp ha).2

/-- What `counted_run` says of a trap beside others. -/
theorem counted_of_apart (hapart : Apart traps) {s : TrapsState ι}
    (h : (trapsSystem traps).Run .start ls s)
    (hreturn : ∀ i, .trap i (.call (.ends .subscriberThrew)) ∉ ls) (i : ι) (n : ℕ) :
    (s.view traps i).SignalsKept (traps i) ∧ (s.view traps i).Counted n
      ((ls.filterMap (TrapsLabel.seenBy traps i)).countP (SessionLabel.raises n)) := by
  have halone := alone_of_apart hapart h i
  refine counted_run halone.of_restrict (readsAndReturns_of (reads_succeed halone) ?_) n
  intro hthrew
  obtain ⟨a, hmem, ha⟩ := List.mem_filterMap.mp hthrew
  rcases TrapsLabel.seenBy_eq_some ha with ⟨m, -, -, ⟨⟩⟩ | ⟨own, rfl, hown⟩
  cases own <;> cases hown
  exact hreturn i hmem

end

/-- **A signal goes to its trap, once**: in every run of a process with traps that are apart
and subscribers that return, a signal of a trap is emitted, in hand or pending no more often
than it came, and as often if it is one of those that are queued; if it came at all, it is in
one of these places. No other trap emits it. -/
theorem signals_emitted_once {ι : Type} [DecidableEq ι] (traps : ι → SignalTrap)
    (hapart : Apart traps) (ls : List (TrapsLabel ι)) (s : TrapsState ι)
    (h : (trapsSystem traps).Run .start ls s)
    (hreturn : ∀ i, .trap i (.call (.ends .subscriberThrew)) ∉ ls) (i : ι) (n : ℕ)
    (hn : n ∈ (traps i).blockedSignalsMask) (hmask : n ∉ unmaskable) :
    (s.view traps i).account n ≤ ls.countP (TrapsLabel.raises n) ∧
      (32 ≤ n → (s.view traps i).account n = ls.countP (TrapsLabel.raises n)) ∧
      (0 < ls.countP (TrapsLabel.raises n) → 0 < (s.view traps i).account n) ∧
      ∀ j, j ≠ i → toSignal n ∉ (s.sessions j).shared.raised := by
  obtain ⟨hkept, hcounted⟩ := counted_of_apart hapart h hreturn i n
  rw [countP_seenBy hn] at hcounted
  rw [hkept.account_eq]
  refine ⟨hcounted.le, hcounted.eq, hcounted.pos, fun j hji hraised => ?_⟩
  have hj : n ∉ (traps j).blockedSignalsMask := fun hj => hmask (hapart i j hji.symm n hn hj)
  obtain ⟨hkept, hcounted⟩ := counted_of_apart hapart h hreturn j n
  have hnone := hcounted.le
  rw [countP_seenBy_of_notMem hj, ← hkept.account_eq] at hnone
  have hone : 0 < (s.view traps j).shared.raised.count (toSignal n) :=
    List.count_pos_iff.mpr hraised
  unfold Sessions.account at hnone
  omega

/-- A trap for `SIGTERM` beside one for `SIGCHLD`. -/
def chldAndTerm : Bool → SignalTrap
  | true => chldTrap
  | false => ⟨.process, 4, Mask.none, SignalTrap.collect [⟨15⟩]⟩

/-- Both signals come, and the trap for `SIGCHLD` emits its own. -/
def bothRaised : List (TrapsLabel Bool) :=
  [.raise 17, .raise 15] ++ beginRead.map (.trap true) ++
    [.trap true (.call (.loop (.read (.records [17] chldRecord_fits)))),
      .trap true (.call (.loop .tau))]

theorem bothRaised_run :
    ∃ s, (trapsSystem chldAndTerm).Run .start bothRaised s ∧
      (s.sessions true).shared.raised = [Signal.sigChld] := by
  refine ⟨_, .cons (@TrapsStep.raise _ _ _ _ true _ (by decide) (by decide)) <|
    .cons (@TrapsStep.raise _ _ _ _ false _ (by decide) (by decide)) <|
    .cons (.trap (.run rfl) nofun) <|
    .cons (.trap (.call rfl (.admitted (by decide))) nofun) <|
    .cons (.trap (.call rfl .store) nofun) <|
    .cons (.trap (.call rfl (@CallStep.opened _ _ fun _ => 0)) nofun) <|
    .cons (.trap (.call rfl (.loop nofun (.signalReady rfl)
      (.ready (by decide) (by decide) (.inl rfl)))) nofun) <|
    .cons (.trap (.call rfl (.loop nofun (.read rfl)
      (@TrapShared.Answers.records _ _ _ 0 (by decide) (by decide)))) nofun) <|
    .cons (.trap (.call rfl (.loop nofun (.iterate rfl rfl) .tau)) nofun) (.nil _), rfl⟩

theorem signals_emitted_once_bothRaised :
    ∃ s, (trapsSystem chldAndTerm).Run .start bothRaised s ∧
      (s.sessions true).shared.raised = [Signal.sigChld] ∧
      (s.view chldAndTerm true).account 17 = 1 ∧ 0 < (s.view chldAndTerm false).account 15 ∧
      toSignal 17 ∉ (s.sessions false).shared.raised := by
  obtain ⟨s, hrun, hraised⟩ := bothRaised_run
  have hapart : Apart chldAndTerm := by
    unfold Apart
    decide
  have hreturn : ∀ i, .trap i (.call (.ends .subscriberThrew)) ∉ bothRaised := by
    simp [bothRaised, beginRead]
  obtain ⟨hle, -, hpos, hother⟩ := signals_emitted_once chldAndTerm hapart bothRaised s hrun hreturn
    true 17 (by decide) (by decide)
  obtain ⟨-, -, hterm, -⟩ := signals_emitted_once chldAndTerm hapart bothRaised s hrun hreturn
    false 15 (by decide) (by decide)
  have hone : bothRaised.countP (TrapsLabel.raises 17) = 1 := rfl
  rw [hone] at hle hpos
  exact ⟨s, hrun, hraised, le_antisymm hle (hpos Nat.one_pos), hterm Nat.one_pos,
    hother false Bool.false_ne_true⟩

end ProcessCpp.Core
