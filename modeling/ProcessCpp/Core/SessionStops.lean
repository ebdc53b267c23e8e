import ProcessCpp.Core.RunCall

/-!
# Stop requests across sessions (signal.cpp:165–185)

`stop` adds one to an eventfd that outlives every session, and a session zeroes it when it
leaves its loop. How many requests one read takes depends on when it is made, so the
history numbers the completed `stop`s and notes for every session how far the count had
got at its last `poll` (`StoppedSession.seen`) and at its read of the eventfd
(`StoppedSession.read`).

- `TrapShared.StopsCounted`: the counter holds exactly the `stop`s since the last read, so
  whoever sees it above zero sees one that no earlier session has taken;
- `stop_ends_session`: a session that is stopped polls at most once more;
- `stops_counted_once`: both, over every run.
-/

namespace ProcessCpp.Core

open ProcessCpp.Base ProcessCpp.Posix

/-! ## Counting -/

/-- How many `stop`s had been completed at the last read of the eventfd. -/
def TrapShared.lastRead (s : TrapShared) : Nat := (s.stopped.getLast?.map (·.read)).getD 0

/-- How many calls have returned. -/
def TrapShared.returned (s : TrapShared) : Nat := s.ends.countP (·.outcome = .returned)

/-- The iteration has seen the eventfd readable. -/
def RunPc.sawEvent : RunPc → Bool
  | .read event | .dispatch _ _ event | .checkEvent event => event
  | .poll | .left => false

def RunPc.leaving : RunPc → Nat
  | .left => 1
  | .poll | .read _ | .dispatch _ _ _ | .checkEvent _ => 0

/-- Whether the call has left its loop and not returned yet. -/
def CallPc.leaving : Option CallPc → Nat
  | some (.loop t _) => t.pc.leaving
  | some .closeFd => 1
  | none | some .load | some .store | some .openFd => 0

/-- Every completed `stop` is in the counter or was there at the last read, and each
session that was stopped saw one that had not been read before. -/
structure TrapShared.StopsCounted (s : TrapShared) : Prop where
  count : s.eventCount + s.lastRead = s.stops
  length : s.stopped.length ≤ s.lastRead
  reads : ∀ a ∈ s.stopped, a.read ≤ s.lastRead
  seen : ∀ a ∈ s.stopped, 0 < a.seen ∧ a.seen ≤ a.read
  ordered : s.stopped.Pairwise fun a b => a.read < b.seen

/-- The same while a session is going on. -/
structure Sessions.StopsCounted (s : Sessions) : Prop where
  shared : s.shared.StopsCounted
  /-- An iteration that has seen the eventfd readable has seen a `stop` nobody has read. -/
  saw : ∀ t seen, s.call = some (.loop t seen) → t.pc.sawEvent = true →
    s.shared.lastRead < seen ∧ seen ≤ s.shared.stops
  /-- The sessions that have left their loop are those that were stopped. -/
  left : s.shared.returned + CallPc.leaving s.call = s.shared.stopped.length

/-- `poll` fails with nothing but `EINTR`. -/
def OnlyInterrupted : SessionLabel → Prop
  | .call (.loop (.poll (.error e))) => e = .eintr
  | _ => True

/-! ### One step -/

/-- The eventfd is seen by `poll`, and the answer is kept until the end of the iteration. -/
theorem RunStep.sawEvent {trap : SignalTrap} {t t' : RunState} {l : RunLabel}
    (h : RunStep trap t l t') (hsaw : t'.pc.sawEvent = true) :
    (∃ signal, l = .poll (.ready signal true)) ∨ ((∀ a, l ≠ .poll a) ∧ t.pc.sawEvent = true) := by
  cases h with
  | interrupted hpc | timeout hpc =>
    rw [hpc] at hsaw
    cases hsaw
  | pollFailed | stopped | again => cases hsaw
  | @signalReady event hpc =>
    obtain rfl : event = true := hsaw
    exact .inl ⟨true, rfl⟩
  | @signalIdle event hpc =>
    obtain rfl : event = true := hsaw
    exact .inl ⟨false, rfl⟩
  | read hpc | iterate hpc | loopDone hpc =>
    refine .inr ⟨nofun, ?_⟩
    rw [hpc]
    exact hsaw

/-- The loop is left after the test of the eventfd, or when `poll` fails. -/
theorem RunStep.left {trap : SignalTrap} {t t' : RunState} {l : RunLabel}
    (h : RunStep trap t l t') (hpc : t.pc ≠ .checkEvent true) (hleft : t'.pc = .left) :
    ∃ e, e ≠ Errno.eintr ∧ l = .poll (.error e) := by
  cases h with
  | pollFailed _ he => exact ⟨_, he, rfl⟩
  | stopped h => exact absurd h hpc
  | interrupted h | timeout h =>
    rw [h] at hleft
    cases hleft
  | signalReady | signalIdle | read | iterate | loopDone | again => cases hleft

theorem RunStep.not_left {trap : SignalTrap} {t t' : RunState} {l : RunLabel}
    (h : RunStep trap t l t') : t.pc ≠ .left := by
  intro hleft
  cases h with
  | interrupted hpc | pollFailed hpc | timeout hpc | signalReady hpc | signalIdle hpc | read hpc
  | iterate hpc | loopDone hpc | stopped hpc | again hpc =>
    rw [hpc] at hleft
    cases hleft

theorem RunPc.leaving_eq_zero {pc : RunPc} (h : pc ≠ .left) : pc.leaving = 0 := by
  cases pc with
  | left => exact absurd rfl h
  | poll | read | dispatch | checkEvent => rfl

section

variable {trap : SignalTrap}

theorem TrapShared.StopsCounted.start : TrapShared.start.StopsCounted where
  count := rfl
  length := Nat.le_refl 0
  reads := fun _ ha => absurd ha List.not_mem_nil
  seen := fun _ ha => absurd ha List.not_mem_nil
  ordered := .nil

/-- Nothing but the counter, the number of `stop`s and the stopped sessions matters. -/
theorem TrapShared.StopsCounted.of_eq {s s' : TrapShared} (h : s.StopsCounted)
    (hcount : s'.eventCount = s.eventCount) (hstops : s'.stops = s.stops)
    (hstopped : s'.stopped = s.stopped) : s'.StopsCounted := by
  have hlast : s'.lastRead = s.lastRead := by rw [TrapShared.lastRead, hstopped]; rfl
  constructor
  · rw [hcount, hlast, hstops]
    exact h.count
  · rw [hstopped, hlast]
    exact h.length
  · rw [hstopped, hlast]
    exact h.reads
  · rw [hstopped]
    exact h.seen
  · rw [hstopped]
    exact h.ordered

/-- The read of the eventfd takes what has been counted since the last one. -/
theorem TrapShared.StopsCounted.readEvent {s : TrapShared} (h : s.StopsCounted) {seen : Nat}
    (hseen : s.lastRead < seen ∧ seen ≤ s.stops) :
    TrapShared.StopsCounted
      { s with eventCount := 0, stopped := s.stopped ++ [⟨seen, s.stops⟩] } := by
  have hlast : TrapShared.lastRead
      { s with eventCount := 0, stopped := s.stopped ++ [⟨seen, s.stops⟩] } = s.stops := by
    simp only [TrapShared.lastRead, List.getLast?_append, List.getLast?_singleton, Option.some_or,
      Option.map_some, Option.getD_some]
  have hcount := h.count
  have hlength := h.length
  constructor
  · show 0 + _ = s.stops
    rw [hlast, Nat.zero_add]
  · rw [hlast]
    show (s.stopped ++ _).length ≤ s.stops
    rw [List.length_append, List.length_singleton]
    omega
  · intro a ha
    rw [hlast]
    rcases List.mem_append.mp ha with ha | ha
    · have hread := h.reads a ha
      omega
    · rw [List.mem_singleton.mp ha]
  · intro a ha
    rcases List.mem_append.mp ha with ha | ha
    · exact h.seen a ha
    · rw [List.mem_singleton.mp ha]
      exact ⟨by show 0 < seen; omega, hseen.2⟩
  · refine List.pairwise_append.mpr ⟨h.ordered, List.pairwise_singleton .., fun a ha b hb => ?_⟩
    rw [List.mem_singleton.mp hb]
    exact lt_of_le_of_lt (h.reads a ha) hseen.1

/-- What a session has been told by its last answer is up to date. -/
theorem TrapShared.StopsCounted.saw_loop {s s' : TrapShared} (h : s.StopsCounted)
    {t t' : RunState} {seen : Nat} {l : RunLabel} (hrun : RunStep trap t l t')
    (hk : s.Answers l s')
    (hold : t.pc.sawEvent = true → s.lastRead < seen ∧ seen ≤ s.stops)
    (hsaw : t'.pc.sawEvent = true) :
    s.lastRead < seenAfter s seen l ∧ seenAfter s seen l ≤ s.stops := by
  rcases hrun.sawEvent hsaw with ⟨signal, rfl⟩ | ⟨hl, hsaw⟩
  · -- the counter was above zero when `poll` answered
    cases hk with
    | ready hsignal hevent =>
      have hpos := hevent.mp rfl
      have hcount := h.count
      exact ⟨by show s.lastRead < s.stops; omega, Nat.le_refl _⟩
  · cases l with
    | poll a => exact absurd rfl (hl a)
    | read | tau => exact hold hsaw

theorem TrapShared.returned_callEnds {s : TrapShared} {outcome : CallOutcome} :
    (s.callEnds outcome).returned = s.returned + if outcome = .returned then 1 else 0 := by
  simp only [TrapShared.returned, TrapShared.callEnds, List.countP_append, List.countP_singleton,
    decide_eq_true_eq]

/-- The balance of a session that stands at `pc` in its loop. -/
theorem Sessions.StopsCounted.left_at {s : TrapShared} {t : RunState} {seen : Nat} {pc : RunPc}
    (h : Sessions.StopsCounted ⟨s, some (.loop t seen)⟩) (hpc : t.pc = pc) :
    s.returned + pc.leaving = s.stopped.length := by
  subst hpc
  exact h.left

theorem OutsideStep.stopsCounted {s s' : TrapShared} {l : OutsideLabel}
    (h : OutsideStep trap s l s') (hs : s.StopsCounted) :
    s'.StopsCounted ∧ s'.stopped = s.stopped ∧ s.stops ≤ s'.stops := by
  rcases h.cases with rfl | rfl | ⟨n, -, rfl⟩
  · exact ⟨hs, rfl, Nat.le_refl _⟩
  · have hcount := hs.count
    refine ⟨⟨?_, hs.length, hs.reads, hs.seen, hs.ordered⟩, rfl, Nat.le_succ _⟩
    show s.eventCount + 1 + s.lastRead = s.stops + 1
    omega
  · exact ⟨hs.of_eq rfl rfl rfl, rfl, Nat.le_refl _⟩

theorem CallStep.stopsCounted {s s' : TrapShared} {pc : CallPc} {l : CallLabel}
    {call : Option CallPc} (h : CallStep trap s pc l s' call)
    (hs : Sessions.StopsCounted ⟨s, some pc⟩) (hl : OnlyInterrupted (.call l)) :
    Sessions.StopsCounted ⟨s', call⟩ := by
  have hshared : s.StopsCounted := hs.shared
  cases h with
  | admitted => exact ⟨hshared, nofun, hs.left⟩
  | refused | openFailed | close =>
    refine ⟨hshared.of_eq rfl rfl rfl, nofun, ?_⟩
    show TrapShared.returned _ + _ = _
    rw [TrapShared.returned_callEnds]
    exact hs.left
  | store => exact ⟨hshared.of_eq rfl rfl rfl, nofun, hs.left⟩
  | opened =>
    refine ⟨hshared.of_eq rfl rfl rfl, fun t seen h hsaw => ?_, hs.left⟩
    cases h
    cases hsaw
  | @loop t t' n l s' hpc hrun hk =>
    have hsaw' := hshared.saw_loop hrun hk (hs.saw t n rfl)
    rw [hk.eq_of_taken]
    refine ⟨hshared.of_eq rfl rfl rfl, fun t seen h hnow => ?_, ?_⟩
    · cases h
      exact hsaw' hnow
    · -- no system call fails here, so the loop is left through the event only
      have hin : t'.pc ≠ .left := by
        intro hout
        obtain ⟨e, he, rfl⟩ := hrun.left hpc hout
        exact he hl
      show s.returned + t'.pc.leaving = s.stopped.length
      rw [RunPc.leaving_eq_zero hin, ← RunPc.leaving_eq_zero hrun.not_left]
      exact hs.left
  | @readEvent t n hpc =>
    have hseen := hs.saw t n rfl (by rw [hpc]; rfl)
    refine ⟨hshared.readEvent hseen, fun t seen h hnow => ?_, ?_⟩
    · cases h
      cases hnow
    · show s.returned + 1 = (s.stopped ++ _).length
      rw [List.length_append, ← hs.left_at hpc]
      rfl
  | throws hpc =>
    refine ⟨hshared.of_eq rfl rfl rfl, nofun, ?_⟩
    show TrapShared.returned _ + _ = _
    rw [TrapShared.returned_callEnds]
    exact hs.left_at hpc
  | leave hpc => exact ⟨hshared.of_eq rfl rfl rfl, nofun, hs.left_at hpc⟩

theorem SessionStep.stopsCounted {s s' : Sessions} {l : SessionLabel}
    (h : SessionStep trap s l s') (hs : s.StopsCounted) (hl : OnlyInterrupted l) :
    s'.StopsCounted := by
  cases h with
  | outside h =>
    obtain ⟨hshared, hstopped, hstops⟩ := h.stopsCounted hs.shared
    refine ⟨hshared, fun t seen ht hnow => ?_, ?_⟩
    · obtain ⟨hlt, hle⟩ := hs.saw t seen ht hnow
      rw [TrapShared.lastRead, hstopped]
      exact ⟨hlt, hle.trans hstops⟩
    · rw [hstopped, TrapShared.returned, h.frame.2.2]
      exact hs.left
  | run hidle =>
    have hleft := hs.left
    rw [hidle] at hleft
    exact ⟨hs.shared, nofun, hleft⟩
  | call hpc h =>
    refine h.stopsCounted ?_ hl
    rw [← hpc]
    exact hs

end

/-! ## A stop ends the session -/

/-- The labels that are answers of `poll`. -/
def SessionLabel.isPoll : SessionLabel → Bool
  | .call (.loop (.poll _)) => true
  | _ => false

/-- How many times `poll` was called and answered. -/
def polls (ls : List SessionLabel) : Nat := ls.countP SessionLabel.isPoll

/-- Whether the iteration will be followed by another `poll`. -/
def RunPc.pollsLeft : RunPc → Nat
  | .poll => 1
  | .read event | .dispatch _ _ event | .checkEvent event => if event then 0 else 1
  | .left => 0

/-- How many times a call can still be in `poll` while the eventfd is readable. -/
def CallPc.pollsLeft : Option CallPc → Nat
  | some .load | some .store | some .openFd => 1
  | some (.loop t _) => t.pc.pollsLeft
  | none | some .closeFd => 0

/-- Whether the call stands in `poll`. -/
def CallPc.polling : Option CallPc → Nat
  | some (.loop t _) => match t.pc with
    | .poll => 1
    | _ => 0
  | _ => 0

theorem CallPc.polling_le (call : Option CallPc) : CallPc.polling call ≤ CallPc.pollsLeft call := by
  unfold CallPc.polling
  split
  · split
    · rename_i hpc
      show 1 ≤ RunPc.pollsLeft _
      rw [hpc]
      exact Nat.le_refl 1
    · exact Nat.zero_le _
  · exact Nat.zero_le _

theorem RunPc.pollsLeft_le_one (pc : RunPc) : pc.pollsLeft ≤ 1 := by
  cases pc with
  | poll => exact Nat.le_refl 1
  | left => exact Nat.zero_le 1
  | read event | dispatch d l event | checkEvent event =>
    cases event with
    | false => exact Nat.le_refl 1
    | true => exact Nat.zero_le 1

theorem CallPc.pollsLeft_le_one (call : Option CallPc) : CallPc.pollsLeft call ≤ 1 := by
  cases call with
  | none => exact Nat.zero_le 1
  | some pc =>
    cases pc with
    | load | store | openFd => exact Nat.le_refl 1
    | loop t seen => exact t.pc.pollsLeft_le_one
    | closeFd => exact Nat.zero_le 1

/-- `1` for an answer of `poll`. -/
def SessionLabel.weight (l : SessionLabel) : Nat := if l.isPoll then 1 else 0

/-- As long as the eventfd is readable, the next answer of `poll` says so. -/
theorem RunStep.pollsLeft {trap : SignalTrap} {s s' : TrapShared} {t t' : RunState} {l : RunLabel}
    (h : RunStep trap t l t') (hk : s.Answers l s')
    (hdue : t.pc.pollsLeft = 0 ∨ 0 < s.eventCount) :
    SessionLabel.weight (.call (.loop l)) + t'.pc.pollsLeft ≤ t.pc.pollsLeft := by
  -- a `poll` that is still to come finds the event
  have hcount : t.pc = .poll → 0 < s.eventCount := by
    intro hpc
    rw [hpc] at hdue
    exact hdue.resolve_left Nat.one_ne_zero
  cases h with
  | interrupted hpc =>
    have hpos := hcount hpc
    cases hk with
    | interrupted hidle => omega
    | pollFailed he => exact absurd rfl he
  | timeout hpc => cases hk
  | pollFailed hpc he =>
    rw [hpc]
    exact Nat.le_refl 1
  | @signalReady event hpc =>
    cases hk with
    | ready hsignal hevent =>
      obtain rfl : event = true := hevent.mpr (hcount hpc)
      rw [hpc]
      exact Nat.le_refl 1
  | @signalIdle event hpc =>
    cases hk with
    | ready hsignal hevent =>
      obtain rfl : event = true := hevent.mpr (hcount hpc)
      rw [hpc]
      exact Nat.le_refl 1
  | read hpc | iterate hpc | loopDone hpc =>
    rw [hpc]
    exact (Nat.zero_add _).le
  | stopped hpc =>
    rw [hpc]
    exact Nat.le_refl 0
  | again hpc =>
    rw [hpc]
    exact Nat.le_refl 1

/-- The call will not poll again, or the eventfd is readable. -/
def Sessions.StopDue (s : Sessions) : Prop :=
  CallPc.pollsLeft s.call = 0 ∨ 0 < s.shared.eventCount

section

variable {trap : SignalTrap}

theorem CallStep.stopDue {s s' : TrapShared} {pc : CallPc} {l : CallLabel} {call : Option CallPc}
    (h : CallStep trap s pc l s' call) (hs : Sessions.StopDue ⟨s, some pc⟩) :
    Sessions.StopDue ⟨s', call⟩ ∧
      SessionLabel.weight (.call l) + CallPc.pollsLeft call ≤ CallPc.pollsLeft (some pc) := by
  cases h with
  | admitted | store => exact ⟨.inr (hs.resolve_left Nat.one_ne_zero), Nat.le_refl 1⟩
  | opened => exact ⟨.inr (hs.resolve_left Nat.one_ne_zero), Nat.le_refl 1⟩
  | refused | openFailed => exact ⟨.inl rfl, Nat.zero_le 1⟩
  | @loop t t' n l s' hpc hrun hk =>
    have hle := hrun.pollsLeft hk hs
    refine ⟨?_, hle⟩
    rcases hs with hzero | hcount
    · left
      have hzero' : t.pc.pollsLeft = 0 := hzero
      show t'.pc.pollsLeft = 0
      omega
    · right
      rw [hk.eq_of_taken]
      exact hcount
  | readEvent hpc => exact ⟨.inl rfl, Nat.zero_le _⟩
  | throws | leave => exact ⟨.inl rfl, Nat.zero_le _⟩
  | close => exact ⟨.inl rfl, Nat.le_refl 0⟩

theorem OutsideStep.eventCount_le {s s' : TrapShared} {l : OutsideLabel}
    (h : OutsideStep trap s l s') : s.eventCount ≤ s'.eventCount := by
  rcases h.cases with rfl | rfl | ⟨n, -, rfl⟩
  · exact Nat.le_refl _
  · exact Nat.le_succ _
  · exact Nat.le_refl _

/-- The same for a whole session: what it has polled, and what it may still, is at most
what it might have to begin with. -/
theorem stopDue_run {s s' : Sessions} {ls : List SessionLabel}
    (h : (sessionSystem trap).Run s ls s') (hrun : .run ∉ ls) (hs : s.StopDue) :
    polls ls + CallPc.pollsLeft s'.call ≤ CallPc.pollsLeft s.call := by
  induction h with
  | nil => exact (Nat.zero_add _).le
  | @cons s t u l ls hstep _ ih =>
    have hrest : .run ∉ ls := fun hmem => hrun (List.mem_cons_of_mem _ hmem)
    have hpolls : polls (l :: ls) = polls ls + l.weight := List.countP_cons ..
    have hkey : t.StopDue ∧ l.weight + CallPc.pollsLeft t.call ≤ CallPc.pollsLeft s.call := by
      cases hstep with
      | outside h =>
        refine ⟨hs.imp_right fun hpos => lt_of_lt_of_le hpos h.eventCount_le, ?_⟩
        exact (Nat.zero_add _).le
      | run => exact absurd (List.mem_cons_self ..) hrun
      | call hpc h =>
        unfold Sessions.StopDue at hs
        rw [hpc] at hs ⊢
        exact h.stopDue hs
    have hle := ih hrest hkey.1
    have hstepLe := hkey.2
    omega

end

/-- A session during which a `stop` completes is in `poll` at most once after that. -/
theorem stop_ends_session {trap : SignalTrap} {s s' : Sessions} {shared : TrapShared}
    {ls : List SessionLabel} (hstop : s.shared.stop = .ok shared)
    (h : (sessionSystem trap).Run ⟨shared, s.call⟩ ls s') (hrun : .run ∉ ls) :
    polls ls + CallPc.polling s'.call ≤ 1 := by
  have hdue : Sessions.StopDue ⟨shared, s.call⟩ := by
    rw [TrapShared.stop_eq_ok hstop]
    exact .inr (Nat.succ_pos _)
  have hle := stopDue_run h hrun hdue
  have hone : CallPc.pollsLeft s.call ≤ 1 := CallPc.pollsLeft_le_one s.call
  have hpolling := CallPc.polling_le s'.call
  have hle' : polls ls + CallPc.pollsLeft s'.call ≤ CallPc.pollsLeft s.call := hle
  omega

/-! ## Over every run -/

theorem stopsCounted_run {trap : SignalTrap} {ls : List SessionLabel} {s : Sessions}
    (h : (sessionSystem trap).Run .start ls s) (hpoll : ∀ l ∈ ls, OnlyInterrupted l) :
    s.StopsCounted := by
  refine (h.restrict_of_forall hpoll).invariant (P := Sessions.StopsCounted) ?_ ?_
  · intro x l y hxy hx
    exact SessionStep.stopsCounted hxy.1 hx hxy.2
  · exact ⟨.start, nofun, rfl⟩

/-- **Every stop request is counted once**: over any number of sessions of a trap, with
`stop` called at any point and `poll` failing with nothing but `EINTR`,

- the sessions that have left their loop are those in `stopped`;
- each of them left it in an iteration whose `poll` saw a `stop` that was completed after
  the last session had read the eventfd (so none that was completed before can end another);
- the eventfd counts the `stop`s completed since then and no others;
- no more sessions have left their loop than `stop`s have been completed;
- a session during which a `stop` completes is in `poll` at most once from then on. -/
theorem stops_counted_once (trap : SignalTrap) (ls : List SessionLabel) (s : Sessions)
    (h : (sessionSystem trap).Run .start ls s) (hpoll : ∀ l ∈ ls, OnlyInterrupted l) :
    s.shared.returned + CallPc.leaving s.call = s.shared.stopped.length ∧
    (∀ a ∈ s.shared.stopped, 0 < a.seen ∧ a.seen ≤ a.read ∧ a.read ≤ s.shared.stops) ∧
    s.shared.stopped.Pairwise (fun a b => a.read < b.seen) ∧
    s.shared.eventCount + s.shared.lastRead = s.shared.stops ∧
    s.shared.returned + CallPc.leaving s.call ≤ s.shared.stops ∧
    ∀ shared ls' s', s.call ≠ none → s.shared.stop = .ok shared →
      (sessionSystem trap).Run ⟨shared, s.call⟩ ls' s' → .run ∉ ls' →
        polls ls' + CallPc.polling s'.call ≤ 1 := by
  have hs := stopsCounted_run h hpoll
  have hcount := hs.shared.count
  have hlength := hs.shared.length
  refine ⟨hs.left, fun a ha => ?_, hs.shared.ordered, hcount, ?_, ?_⟩
  · obtain ⟨hpos, hle⟩ := hs.shared.seen a ha
    have hread := hs.shared.reads a ha
    exact ⟨hpos, hle, by omega⟩
  · rw [hs.left]
    omega
  · intro shared ls' s' _ hstop hrun' hnew
    exact stop_ends_session hstop hrun' hnew

theorem stops_counted_once_stoppedCall :
    (∀ l ∈ stoppedCall, OnlyInterrupted l) ∧
      afterStoppedCall.shared.stopped.length = 1 ∧
      afterStoppedCall.shared.returned + CallPc.leaving afterStoppedCall.call ≤
        afterStoppedCall.shared.stops := by
  have hpoll : ∀ l ∈ stoppedCall, OnlyInterrupted l := by
    simp [stoppedCall, OnlyInterrupted]
  obtain ⟨-, -, -, -, hle, -⟩ := stops_counted_once chldTrap stoppedCall afterStoppedCall
    (stoppedCall_run chldTrap) hpoll
  exact ⟨hpoll, rfl, hle⟩

end ProcessCpp.Core
