import ProcessCpp.Core.RunCall

/-!
# Signals across sessions (signal.cpp:147–176)

A session takes pending signals in batches of at most five records, emits each record of
a batch, and only then looks at the eventfd. Between the read and the end of the record
loop some records are with the session and nowhere else: `RunPc.undispatched`.

- `Sessions.SignalsKept`: everything that was removed has been emitted, in that order, or is
  still undispatched; everything that became pending was removed or is pending still.
- `next_session_takes`: what is pending when a session returns is what the next one reads.
- `signals_conserved`: both, over every run in which reads succeed and subscribers return.
-/

namespace ProcessCpp.Core

open ProcessCpp.Base ProcessCpp.Posix

/-- `static_cast<core::posix::Signal>(ssi_signo)`. -/
def toSignal (signo : ℕ) : Signal := ⟨signo⟩

/-- The records that have been read and not been looked at yet. -/
def RunPc.undispatched : RunPc → List ℕ
  | .dispatch ⟨.records signos _, _⟩ l _ => signos.drop l.i
  | _ => []

def CallPc.undispatched : Option CallPc → List ℕ
  | some (.loop t _) => t.pc.undispatched
  | none | some .load | some .store | some .openFd | some .closeFd => []

/-- The records that an answer of the kernel removes. -/
def RunLabel.taken : RunLabel → List ℕ
  | .read (.records signos _) => signos
  | _ => []

/-- Reads of the signalfd succeed, and subscribers return. -/
def ReadsAndReturns : SessionLabel → Prop
  | .call (.loop (.read (.failed _))) => False
  | .call (.ends .subscriberThrew) => False
  | _ => True

/-! ## The record loop emits what was read -/

/-- While records are looked at, they are records that were read. -/
def RunState.Reading (t : RunState) : Prop :=
  ∀ d l event, t.pc = .dispatch d l event → ∃ signos fits, d.answer = .records signos fits

/-- Every signal of the trap's set is one it has. -/
theorem SignalTrap.has_of_mem {trap : SignalTrap} {n : ℕ} (h : n ∈ trap.blockedSignalsMask) :
    trap.has (toSignal n) = true := by
  unfold SignalTrap.has sigismember toSignal
  by_cases hn : isSignal (n : Int)
  · rw [if_pos hn, Int.toNat_natCast, if_pos h]
    rfl
  · rw [if_neg hn]
    rfl

section

variable {trap : SignalTrap} {t t' : RunState} {l : RunLabel}

theorem RunState.Reading.step (h : t.Reading) (hstep : RunStep trap t l t')
    (hl : ∀ e, l ≠ .read (.failed e)) : t'.Reading := by
  intro d ls event hpc
  cases hstep with
  | interrupted | timeout => exact h d ls event hpc
  | @read event' a =>
    cases hpc
    cases a with
    | records signos fits => exact ⟨signos, fits, rfl⟩
    | failed e => exact absurd rfl (hl e)
  | iterate hold =>
    cases hpc
    exact h _ _ _ hold
  | pollFailed | signalReady | signalIdle | loopDone | stopped | again => cases hpc

/-- A step looks at the next record, and emits it; or it reads the next batch. -/
theorem RunStep.emits (h : RunStep trap t l t') (hread : t.Reading) (hrec : t.RecordsRead)
    (htrap : ∀ n ∈ t.pc.undispatched, n ∈ trap.blockedSignalsMask)
    (hl : ∀ e, l ≠ .read (.failed e)) :
    ∃ ns, t.pc.undispatched ++ l.taken = ns ++ t'.pc.undispatched ∧
      newlyRaised t t' = ns.map toSignal := by
  cases h with
  | interrupted | timeout => exact ⟨[], List.append_nil _, List.drop_length⟩
  | pollFailed hpc | signalReady hpc | signalIdle hpc | stopped hpc | again hpc =>
    rw [hpc]
    exact ⟨[], rfl, List.drop_length⟩
  | @read event a hpc =>
    rw [hpc]
    cases a with
    | records signos fits => exact ⟨[], rfl, List.drop_length⟩
    | failed e => exact absurd rfl (hl e)
  | @iterate d ls ls' event hpc hls =>
    obtain ⟨hlt, rfl⟩ := loopStep_eq_some.mp hls
    obtain ⟨answer, info⟩ := d
    obtain ⟨signos, fits, rfl⟩ := hread _ _ _ hpc
    replace hlt : ls.i < signos.length := loopBound_records fits ▸ hlt
    -- the buffer has five places, so the counter of the loop does not wrap
    have hsmall : ls.i + 1 < 2 ^ 32 := by
      have hle : signos.length ≤ 5 := fits.2
      omega
    have hhead : signos.drop ls.i = signos[ls.i] :: signos.drop (ls.i + 1) :=
      List.drop_eq_getElem_cons hlt
    rw [hpc] at htrap ⊢
    refine ⟨[signos[ls.i]], ?_, ?_⟩
    · show signos.drop ls.i ++ [] = [signos[ls.i]] ++ signos.drop ((ls.i + 1) % 2 ^ 32)
      rw [List.append_nil, Nat.mod_eq_of_lt hsmall, hhead]
      rfl
    · have hinfo : info ls.i = signos[ls.i] :=
        hrec _ _ _ _ _ hpc ls.i _ (List.getElem?_eq_getElem hlt)
      have hmem : signos[ls.i] ∈ trap.blockedSignalsMask := by
        refine htrap _ ?_
        show signos[ls.i] ∈ signos.drop ls.i
        rw [hhead]
        exact List.mem_cons_self ..
      show (t.raised ++ iterEmits trap ⟨.records signos fits, info⟩ ls.i).drop t.raised.length = _
      rw [List.drop_left]
      show (if trap.has (toSignal (info ls.i)) then [toSignal (info ls.i)] else []) = _
      rw [hinfo, if_pos (SignalTrap.has_of_mem hmem)]
      rfl
  | @loopDone d ls event hpc hls =>
    obtain ⟨answer, info⟩ := d
    obtain ⟨signos, fits, rfl⟩ := hread _ _ _ hpc
    have hge := loopStep_eq_none.mp hls
    replace hge : signos.length ≤ ls.i := loopBound_records fits ▸ hge
    rw [hpc]
    refine ⟨[], ?_, List.drop_length⟩
    show signos.drop ls.i ++ [] = []
    rw [List.drop_eq_nil_of_le hge]
    rfl

end

/-! ## What is kept along a run -/

/-- The kernel hands out what is pending. -/
theorem TrapShared.Answers.taken {s s' : TrapShared} {l : RunLabel} (h : s.Answers l s') :
    s'.removed = s.removed ++ l.taken ∧ s.pending = ↑l.taken + s'.pending := by
  cases h with
  | records hpending => exact ⟨rfl, hpending⟩
  | ready | interrupted | pollFailed | readFailed | tau =>
    exact ⟨(List.append_nil _).symm, (Multiset.zero_add _).symm⟩

/-- Everything that became pending is pending still or has been removed, and everything
that was removed has been emitted in that order, but for the records in hand. -/
structure Sessions.SignalsKept (trap : SignalTrap) (s : Sessions) : Prop where
  trapped : ∀ n ∈ s.shared.pending, n ∈ trap.blockedSignalsMask
  inHand : ∀ n ∈ CallPc.undispatched s.call, n ∈ trap.blockedSignalsMask
  reading : ∀ t seen, s.call = some (.loop t seen) → t.Reading ∧ t.RecordsRead
  order : s.shared.removed.map toSignal =
    s.shared.raised ++ (CallPc.undispatched s.call).map toSignal
  balance : s.shared.queued = ↑s.shared.removed + s.shared.pending
  closing : s.call = some .closeFd → s.shared.state = .notRunning

section

variable {trap : SignalTrap}

theorem Sessions.SignalsKept.start : Sessions.start.SignalsKept trap where
  trapped := fun _ hn => absurd hn (Multiset.notMem_zero _)
  inHand := fun _ hn => absurd hn List.not_mem_nil
  reading := nofun
  order := rfl
  balance := rfl
  closing := nofun

theorem OutsideStep.signalsKept {s s' : TrapShared} {l : OutsideLabel} {call : Option CallPc}
    (h : OutsideStep trap s l s') (hs : Sessions.SignalsKept trap ⟨s, call⟩) :
    Sessions.SignalsKept trap ⟨s', call⟩ := by
  rcases h.cases with rfl | rfl | ⟨n, hmem, rfl⟩
  · exact hs
  · exact ⟨hs.trapped, hs.inHand, hs.reading, hs.order, hs.balance, hs.closing⟩
  · refine ⟨fun m hm => ?_, hs.inHand, hs.reading, hs.order, ?_, hs.closing⟩
    · rcases Multiset.mem_cons.mp hm with rfl | hm
      · exact hmem
      · exact hs.trapped m hm
    · show n ::ₘ s.queued = ↑s.removed + n ::ₘ s.pending
      rw [Multiset.add_cons, ← hs.balance]

/-- The order of a session that stands at `pc` in its loop. -/
theorem Sessions.SignalsKept.order_at {s : TrapShared} {t : RunState} {seen : Nat} {pc : RunPc}
    (h : Sessions.SignalsKept trap ⟨s, some (.loop t seen)⟩) (hpc : t.pc = pc) :
    s.removed.map toSignal = s.raised ++ pc.undispatched.map toSignal := by
  subst hpc
  exact h.order

theorem CallStep.signalsKept {s s' : TrapShared} {pc : CallPc} {l : CallLabel}
    {call : Option CallPc} (h : CallStep trap s pc l s' call)
    (hs : Sessions.SignalsKept trap ⟨s, some pc⟩) (hl : ReadsAndReturns (.call l)) :
    Sessions.SignalsKept trap ⟨s', call⟩ := by
  have htrapped : ∀ n ∈ s.pending, n ∈ trap.blockedSignalsMask := hs.trapped
  have hbalance : s.queued = ↑s.removed + s.pending := hs.balance
  cases h with
  | admitted | refused | store | openFailed | close =>
    exact ⟨htrapped, hs.inHand, nofun, hs.order, hbalance, nofun⟩
  | opened =>
    refine ⟨htrapped, hs.inHand, fun t seen ht => ?_, hs.order, hbalance, nofun⟩
    cases ht
    exact ⟨nofun, nofun⟩
  | @loop t t' seen l s' hpc hrun hk =>
    obtain ⟨hread, hrec⟩ := hs.reading t seen rfl
    have hok : ∀ e, l ≠ .read (.failed e) := by
      rintro e rfl
      exact hl
    obtain ⟨ns, hns, hraised⟩ := hrun.emits hread hrec hs.inHand hok
    obtain ⟨hremoved, hpending⟩ := hk.taken
    have htaken : ∀ n ∈ t.pc.undispatched ++ l.taken, n ∈ trap.blockedSignalsMask := by
      intro n hn
      rcases List.mem_append.mp hn with hn | hn
      · exact hs.inHand n hn
      · refine htrapped n ?_
        rw [hpending]
        exact Multiset.mem_add.mpr (.inl hn)
    refine ⟨fun n hn => ?_, fun n hn => ?_, fun t₁ seen₁ ht => ?_, ?_, ?_, nofun⟩
    · refine htrapped n ?_
      rw [hpending]
      exact Multiset.mem_add.mpr (.inr hn)
    · refine htaken n ?_
      rw [hns]
      exact List.mem_append_right _ hn
    · cases ht
      exact ⟨hread.step hrun hok, hrec.step hrun⟩
    · -- what was in hand and what was read is what is emitted and what is in hand then
      have hraised' : s'.raised = s.raised := by rw [hk.eq_of_taken]
      show s'.removed.map toSignal =
        s'.raised ++ newlyRaised t t' ++ t'.pc.undispatched.map toSignal
      calc s'.removed.map toSignal
          = s.removed.map toSignal ++ l.taken.map toSignal := by rw [hremoved, List.map_append]
        _ = s.raised ++ (t.pc.undispatched ++ l.taken).map toSignal := by
            rw [List.map_append, ← List.append_assoc]
            exact congrArg (· ++ l.taken.map toSignal) hs.order
        _ = s'.raised ++ newlyRaised t t' ++ t'.pc.undispatched.map toSignal := by
            rw [hns, List.map_append, ← hraised, hraised', List.append_assoc]
    · have hqueued : s'.queued = s.queued := by rw [hk.eq_of_taken]
      show s'.queued = ↑s'.removed + s'.pending
      rw [hqueued, hremoved, ← Multiset.coe_add, Multiset.add_assoc, ← hpending]
      exact hbalance
  | readEvent hpc =>
    refine ⟨htrapped, fun n hn => absurd hn List.not_mem_nil, fun t₁ seen₁ ht => ?_,
      hs.order_at hpc, hbalance, nofun⟩
    cases ht
    exact ⟨nofun, nofun⟩
  | throws => exact hl.elim
  | leave hpc =>
    exact ⟨htrapped, fun n hn => absurd hn List.not_mem_nil, nofun, hs.order_at hpc, hbalance,
      fun _ => rfl⟩

theorem SessionStep.signalsKept {s s' : Sessions} {l : SessionLabel}
    (h : SessionStep trap s l s') (hs : s.SignalsKept trap) (hl : ReadsAndReturns l) :
    s'.SignalsKept trap := by
  cases h with
  | outside h => exact h.signalsKept hs
  | run hidle =>
    obtain ⟨shared, call⟩ := s
    obtain rfl : call = none := hidle
    exact ⟨hs.trapped, hs.inHand, nofun, hs.order, hs.balance, nofun⟩
  | @call pc cl shared call hpc h =>
    obtain ⟨old, c⟩ := s
    obtain rfl : c = some pc := hpc
    exact h.signalsKept hs hl

theorem signalsKept_run {ls : List SessionLabel} {s : Sessions}
    (h : (sessionSystem trap).Run .start ls s) (hls : ∀ l ∈ ls, ReadsAndReturns l) :
    s.SignalsKept trap := by
  refine (h.restrict_of_forall hls).invariant (P := Sessions.SignalsKept trap) ?_ .start
  intro x l y hxy hx
  exact SessionStep.signalsKept hxy.1 hx hxy.2

end

/-! ## The next session takes what is pending -/

section

variable {trap : SignalTrap}

/-- A step of the loop that emits nothing. -/
theorem quiet_step {s s' : TrapShared} {t t' : RunState} {seen : Nat} {l : RunLabel}
    (hpc : t.pc ≠ .checkEvent true) (hrun : RunStep trap t l t') (hk : s.Answers l s')
    (hquiet : t'.raised = t.raised) :
    SessionStep trap ⟨s, some (.loop t seen)⟩ (.call (.loop l))
      ⟨s', some (.loop t' (seenAfter s seen l))⟩ := by
  have hnone : newlyRaised t t' = [] := by rw [newlyRaised, hquiet, List.drop_length]
  have hstep : CallStep trap s (.loop t seen) (.loop l) _ _ := .loop hpc hrun hk
  rw [hnone, List.append_nil] at hstep
  exact .call rfl hstep

/-- A step of the record loop emits the part of what is in hand that it is done with. -/
theorem dispatch_step {shared : TrapShared} {t t' : RunState} {seen : Nat} {d : Dispatch}
    {l : LoopState} {event : Bool} (hpc : t.pc = .dispatch d l event) (hread : t.Reading)
    (hrec : t.RecordsRead) (htrap : ∀ n ∈ t.pc.undispatched, n ∈ trap.blockedSignalsMask)
    (hstep : RunStep trap t .tau t') :
    ∃ ns, t.pc.undispatched = ns ++ t'.pc.undispatched ∧
      SessionStep trap ⟨shared, some (.loop t seen)⟩ (.call (.loop .tau))
        ⟨{ shared with raised := shared.raised ++ ns.map toSignal }, some (.loop t' seen)⟩ := by
  obtain ⟨ns, hns, hraised⟩ := hstep.emits hread hrec htrap nofun
  have hne : t.pc ≠ .checkEvent true := by
    rw [hpc]
    nofun
  refine ⟨ns, (List.append_nil _).symm.trans hns, ?_⟩
  rw [← hraised]
  exact .call rfl (.loop hne hstep .tau)

theorem dispatch_done {shared : TrapShared} {t : RunState} {seen : Nat} {d : Dispatch}
    {l : LoopState} {event : Bool} (hpc : t.pc = .dispatch d l event) (hread : t.Reading)
    (hrec : t.RecordsRead) (htrap : ∀ n ∈ t.pc.undispatched, n ∈ trap.blockedSignalsMask)
    (hl : loopStep trap d l = none) :
    (sessionSystem trap).Run ⟨shared, some (.loop t seen)⟩ [.call (.loop .tau)]
      ⟨{ shared with raised := shared.raised ++ t.pc.undispatched.map toSignal },
        some (.loop { t with pc := .checkEvent event } seen)⟩ := by
  obtain ⟨ns, hns, hstep⟩ :=
    @dispatch_step _ shared _ _ seen _ _ _ hpc hread hrec htrap (.loopDone hpc hl)
  have hall : t.pc.undispatched = ns := hns.trans (List.append_nil _)
  rw [hall]
  exact .cons hstep (.nil _)

/-- The record loop runs to its end, and emits what is in hand. -/
theorem dispatch_run (n : Nat) {shared : TrapShared} {t : RunState} {seen : Nat} {d : Dispatch}
    {l : LoopState} {event : Bool} (hpc : t.pc = .dispatch d l event) (hread : t.Reading)
    (hrec : t.RecordsRead) (htrap : ∀ n ∈ t.pc.undispatched, n ∈ trap.blockedSignalsMask)
    (hn : loopBound d.answer.result ≤ l.i + n) :
    ∃ ls t', (sessionSystem trap).Run ⟨shared, some (.loop t seen)⟩ ls
        ⟨{ shared with raised := shared.raised ++ t.pc.undispatched.map toSignal },
          some (.loop t' seen)⟩ ∧
      t'.pc = .checkEvent event ∧ .run ∉ ls := by
  induction n generalizing shared t l with
  | zero =>
    have hl : loopStep trap d l = none := loopStep_eq_none.mpr hn
    exact ⟨_, _, dispatch_done hpc hread hrec htrap hl, rfl, by simp⟩
  | succ n ih =>
    cases hl : loopStep trap d l with
    | none => exact ⟨_, _, dispatch_done hpc hread hrec htrap hl, rfl, by simp⟩
    | some l' =>
      have hrun : RunStep trap t .tau
          { t with pc := .dispatch d l' event, raised := t.raised ++ iterEmits trap d l.i } :=
        .iterate hpc hl
      obtain ⟨ns, hns, hstep⟩ := @dispatch_step _ shared _ _ seen _ _ _ hpc hread hrec htrap hrun
      -- the index is within the batch, so it does not wrap
      obtain ⟨signos, fits, ha⟩ := hread _ _ _ hpc
      obtain ⟨hlt, rfl⟩ := loopStep_eq_some.mp hl
      have hbound : loopBound d.answer.result ≤ 5 := by
        rw [ha, loopBound_records fits]
        exact fits.2
      have hnext : loopBound d.answer.result ≤ (l.i + 1) % 2 ^ 32 + n := by
        rw [Nat.mod_eq_of_lt (by omega)]
        omega
      obtain ⟨ls, t', hrest, hpc', hnew⟩ :=
        @ih { shared with raised := shared.raised ++ ns.map toSignal } _
          ⟨(l.i + 1) % 2 ^ 32, l.accessed ++ [l.i], l.emitted ++ iterEmits trap d l.i⟩ rfl
          (hread.step hrun nofun) (hrec.step hrun)
          (fun m hm => htrap m (hns ▸ List.mem_append_right _ hm)) hnext
      refine ⟨.call (.loop .tau) :: ls, t', .cons hstep ?_, hpc', by simpa using hnew⟩
      rw [hns, List.map_append, ← List.append_assoc]
      exact hrest

/-- The trap after a batch has been read and emitted, and `rest` is still pending. -/
def TrapShared.afterBatch (s : TrapShared) (batch rest : List ℕ) : TrapShared :=
  { s with
    pending := ↑rest
    removed := s.removed ++ batch
    raised := s.raised ++ batch.map toSignal }

/-- One iteration of a session takes the first batch of what is pending, in whatever order
the kernel hands it out, and emits it. -/
theorem batch_run {shared : TrapShared} {t : RunState} {seen : Nat} (hpc : t.pc = .poll)
    {order : List ℕ} (hpending : shared.pending = ↑order) (hsome : order ≠ [])
    (htrap : ∀ n ∈ order, n ∈ trap.blockedSignalsMask) :
    ∃ ls t' seen', (sessionSystem trap).Run ⟨shared, some (.loop t seen)⟩ ls
        ⟨shared.afterBatch (order.take signalInfoBufferSize) (order.drop signalInfoBufferSize),
          some (.loop t' seen')⟩ ∧
      t'.pc = .checkEvent (decide (0 < shared.eventCount)) ∧ .run ∉ ls := by
  have hlen : (order.take signalInfoBufferSize).length = min signalInfoBufferSize order.length :=
    List.length_take ..
  have fits : 0 < (order.take signalInfoBufferSize).length ∧
      (order.take signalInfoBufferSize).length ≤ signalInfoBufferSize := by
    have hpos : 0 < order.length := List.length_pos_iff.mpr hsome
    have hfive : signalInfoBufferSize = 5 := rfl
    omega
  -- `poll` and `read` answer by what is pending
  have hready : shared.Answers (.poll (.ready true (decide (0 < shared.eventCount)))) shared := by
    refine .ready (iff_of_true rfl ?_) decide_eq_true_iff (.inl rfl)
    rw [hpending]
    exact fun hnone => hsome (Multiset.coe_eq_zero order |>.mp hnone)
  have htaken : shared.Answers (.read (.records (order.take signalInfoBufferSize) fits))
      { shared with
        pending := ↑(order.drop signalInfoBufferSize)
        removed := shared.removed ++ order.take signalInfoBufferSize } := by
    refine .records ?_ ?_
    · rw [hpending, Multiset.coe_add, List.take_append_drop]
    · rw [hpending, Multiset.coe_card, hlen]
  have hne : t.pc ≠ .checkEvent true := by
    rw [hpc]
    nofun
  have hread : RunStep trap { t with pc := .read (decide (0 < shared.eventCount)) }
      (.read (.records (order.take signalInfoBufferSize) fits)) _ := .read rfl
  have hreading : RunState.Reading { t with pc := .read (decide (0 < shared.eventCount)) } := nofun
  have hrecords : RunState.RecordsRead { t with pc := .read (decide (0 < shared.eventCount)) } :=
    nofun
  obtain ⟨ls, t', hrun, hpc', hnew⟩ := @dispatch_run trap signalInfoBufferSize _ _ shared.stops
    _ _ _ rfl (hreading.step hread nofun) (hrecords.step hread)
    (fun m hm => htrap m (List.mem_of_mem_take hm))
    (by rw [loopBound_records fits]; exact fits.2.trans (Nat.le_add_left _ _))
  refine ⟨_, t', _, .cons (quiet_step hne (.signalReady hpc) hready rfl)
    (.cons (quiet_step nofun hread htaken rfl) hrun), hpc', ?_⟩
  intro hmem
  rcases List.mem_cons.mp hmem with h | hmem
  · cases h
  · rcases List.mem_cons.mp hmem with h | hmem
    · cases h
    · exact hnew hmem

/-- Without a new call, `order` can be taken from the kernel and emitted. -/
def Sessions.CanTake (trap : SignalTrap) (s : Sessions) (order : List ℕ) : Prop :=
  ∃ ls s', (sessionSystem trap).Run s ls s' ∧ .run ∉ ls ∧
    s'.shared.removed = s.shared.removed ++ order ∧
    s'.shared.raised = s.shared.raised ++ order.map toSignal

theorem Sessions.CanTake.nil (s : Sessions) : s.CanTake trap [] :=
  ⟨[], s, .nil s, List.not_mem_nil, (List.append_nil _).symm, (List.append_nil _).symm⟩

/-- A run that takes a batch, and what can be taken after it. -/
theorem Sessions.CanTake.after {s t : Sessions} {ls : List SessionLabel} {batch rest : List ℕ}
    (h : (sessionSystem trap).Run s ls t) (hls : .run ∉ ls)
    (hremoved : t.shared.removed = s.shared.removed ++ batch)
    (hraised : t.shared.raised = s.shared.raised ++ batch.map toSignal)
    (hrest : t.CanTake trap rest) : s.CanTake trap (batch ++ rest) := by
  obtain ⟨ls', u, hrun, hls', hremoved', hraised'⟩ := hrest
  refine ⟨ls ++ ls', u, h.append hrun, ?_, ?_, ?_⟩
  · intro hmem
    rcases List.mem_append.mp hmem with hmem | hmem
    · exact hls hmem
    · exact hls' hmem
  · rw [hremoved', hremoved, List.append_assoc]
  · rw [hraised', hraised, List.map_append, List.append_assoc]

/-- A session that is not stopped takes everything that is pending, batch by batch. -/
theorem session_takes_all (n : Nat) {shared : TrapShared} {t : RunState} {seen : Nat}
    (hpc : t.pc = .poll) (hcount : shared.eventCount = 0) {order : List ℕ}
    (hpending : shared.pending = ↑order) (hn : order.length ≤ n)
    (htrap : ∀ n ∈ order, n ∈ trap.blockedSignalsMask) :
    Sessions.CanTake trap ⟨shared, some (.loop t seen)⟩ order := by
  induction n generalizing shared t seen order with
  | zero =>
    obtain rfl : order = [] := List.length_eq_zero_iff.mp (Nat.le_zero.mp hn)
    exact .nil _
  | succ n ih =>
    by_cases hempty : order = []
    · subst hempty
      exact .nil _
    obtain ⟨ls, t₁, seen₁, hrun, hpc₁, hnew⟩ := @batch_run _ _ _ seen hpc _ hpending hempty htrap
    rw [hcount] at hpc₁
    have hne : t₁.pc ≠ .checkEvent true := by
      rw [hpc₁]
      nofun
    have hrest : (order.drop signalInfoBufferSize).length ≤ n := by
      have hpos : 0 < order.length := List.length_pos_iff.mpr hempty
      have hfive : signalInfoBufferSize = 5 := rfl
      rw [List.length_drop]
      omega
    rw [← List.take_append_drop signalInfoBufferSize order]
    refine .after hrun hnew rfl rfl ?_
    -- no `stop` has arrived, so the session polls again
    refine Sessions.CanTake.after (.cons (quiet_step hne (.again hpc₁) .tau rfl) (.nil _))
      (by simp) (List.append_nil _).symm (List.append_nil _).symm ?_
    refine ih rfl ?_ rfl hrest fun m hm => htrap m (List.mem_of_mem_drop hm)
    exact hcount

/-- What one session takes of the pending signals, handed out in this order: all of them,
or the first batch if a `stop` is waiting for it. -/
def TrapShared.takesNext (s : TrapShared) (order : List ℕ) : List ℕ :=
  if s.eventCount = 0 then order else order.take signalInfoBufferSize

theorem opened_session_takes {shared : TrapShared} {order : List ℕ}
    (hpending : shared.pending = ↑order) (htrap : ∀ n ∈ order, n ∈ trap.blockedSignalsMask) :
    Sessions.CanTake trap ⟨shared, some (.loop (.start fun _ => 0) 0)⟩
      (shared.takesNext order) := by
  by_cases hcount : shared.eventCount = 0
  · rw [TrapShared.takesNext, if_pos hcount]
    exact session_takes_all order.length rfl hcount hpending (Nat.le_refl _) htrap
  · rw [TrapShared.takesNext, if_neg hcount]
    by_cases hempty : order = []
    · subst hempty
      exact .nil _
    · obtain ⟨ls, t, seen, hrun, -, hnew⟩ :=
        @batch_run trap shared (.start fun _ => 0) 0 rfl _ hpending hempty htrap
      exact ⟨ls, _, hrun, hnew, rfl, rfl⟩

/-- The next session finds what was pending when the last one returned. -/
theorem next_session_takes {shared : TrapShared} (hstate : shared.state = .notRunning)
    {order : List ℕ} (hpending : shared.pending = ↑order)
    (htrap : ∀ n ∈ order, n ∈ trap.blockedSignalsMask) :
    ∃ ls s', (sessionSystem trap).Run ⟨shared, none⟩ (.run :: ls) s' ∧ .run ∉ ls ∧
      s'.shared.removed = shared.removed ++ shared.takesNext order ∧
      s'.shared.raised = shared.raised ++ (shared.takesNext order).map toSignal := by
  have hadmitted : shared.state ≠ .running := by
    rw [hstate]
    nofun
  obtain ⟨ls, s', hrun, hnew, hremoved, hraised⟩ := @opened_session_takes trap
    { shared with state := .running, signalFds := shared.signalFds + 1 } order hpending htrap
  refine ⟨.call .load :: .call .store :: .call .openFd :: ls, s', ?_, by simpa using hnew, hremoved,
    hraised⟩
  exact .cons (.run rfl) (.cons (.call rfl (.admitted hadmitted)) (.cons (.call rfl .store)
    (.cons (.call rfl .opened) hrun)))

end

/-! ## Over every run -/

/-- A signal that is pending stays so until it is read. -/
theorem SessionStep.pending {trap : SignalTrap} {s s' : Sessions} {l : SessionLabel}
    (h : SessionStep trap s l s') :
    ∃ new, s'.shared.removed = s.shared.removed ++ new ∧
      s.shared.pending ≤ ↑new + s'.shared.pending := by
  have hsame : s.shared.removed = s.shared.removed ++ [] ∧
      s.shared.pending ≤ ↑([] : List ℕ) + s.shared.pending :=
    ⟨(List.append_nil _).symm, (Multiset.zero_add _).ge⟩
  cases h with
  | outside h =>
    rcases h.cases with rfl | rfl | ⟨n, -, rfl⟩
    · exact ⟨[], hsame⟩
    · exact ⟨[], hsame⟩
    · refine ⟨[], hsame.1, ?_⟩
      exact hsame.2.trans (Multiset.add_le_add_left (Multiset.le_cons_self ..))
  | run => exact ⟨[], hsame⟩
  | call hpc h =>
    cases h with
    | loop hne hrun hk =>
      obtain ⟨hremoved, hpending⟩ := hk.taken
      exact ⟨_, hremoved, hpending.le⟩
    | admitted | refused | store | opened | openFailed | readEvent | throws | leave | close =>
      exact ⟨[], hsame⟩

theorem pending_run {trap : SignalTrap} {s s' : Sessions} {ls : List SessionLabel}
    (h : (sessionSystem trap).Run s ls s') :
    ∃ new, s'.shared.removed = s.shared.removed ++ new ∧
      s.shared.pending ≤ ↑new + s'.shared.pending := by
  induction h with
  | nil => exact ⟨[], (List.append_nil _).symm, (Multiset.zero_add _).ge⟩
  | @cons s t u l ls hstep _ ih =>
    obtain ⟨new, hremoved, hpending⟩ := SessionStep.pending hstep
    obtain ⟨more, hremoved', hpending'⟩ := ih
    refine ⟨new ++ more, by rw [hremoved', hremoved, List.append_assoc], ?_⟩
    calc s.shared.pending
        ≤ ↑new + t.shared.pending := hpending
      _ ≤ ↑new + (↑more + u.shared.pending) := Multiset.add_le_add_left hpending'
      _ = ↑(new ++ more) + u.shared.pending := by rw [← Multiset.add_assoc, Multiset.coe_add]

/-- **Signals are conserved across sessions**: over any number of sessions of a trap, with
`stop` called at any point and any answers of `poll`, as long as reads succeed and
subscribers return,

- what has been emitted is what was removed from the kernel, in that order and once each,
  up to the records that are in hand, of which there are none outside the loop;
- every signal that became pending has been removed or is pending still;
- what is pending stays so in every continuation until it is removed;
- when a session returns, the next one is admitted and finds what is pending: it can take
  all of it, in any order (or the first batch, if another `stop` is waiting). -/
theorem signals_conserved (trap : SignalTrap) (ls : List SessionLabel) (s : Sessions)
    (h : (sessionSystem trap).Run .start ls s) (hls : ∀ l ∈ ls, ReadsAndReturns l) :
    s.shared.removed.map toSignal =
      s.shared.raised ++ (CallPc.undispatched s.call).map toSignal ∧
    (s.call = none → s.shared.raised = s.shared.removed.map toSignal) ∧
    s.shared.queued = ↑s.shared.removed + s.shared.pending ∧
    (∀ ls' s', (sessionSystem trap).Run s ls' s' →
      ∃ new, s'.shared.removed = s.shared.removed ++ new ∧
        s.shared.pending ≤ ↑new + s'.shared.pending) ∧
    ∀ s₁, SessionStep trap s (.call (.ends .returned)) s₁ →
      s₁.shared.raised = s₁.shared.removed.map toSignal ∧
      s₁.shared.pending = s.shared.pending ∧
      ∀ order : List ℕ, s₁.shared.pending = ↑order →
        ∃ ls' s', (sessionSystem trap).Run s₁ (.run :: ls') s' ∧ .run ∉ ls' ∧
          s'.shared.removed = s₁.shared.removed ++ s₁.shared.takesNext order ∧
          s'.shared.raised = s₁.shared.raised ++ (s₁.shared.takesNext order).map toSignal := by
  have hs := signalsKept_run h hls
  refine ⟨hs.order, fun hidle => ?_, hs.balance, fun ls' s' hrun => pending_run hrun, ?_⟩
  · have horder := hs.order
    rw [hidle] at horder
    exact (horder.trans (List.append_nil _)).symm
  · intro s₁ hstep
    have hs₁ := SessionStep.signalsKept hstep hs trivial
    cases hstep with
    | call hpc hcall =>
      cases hcall with
      | close =>
        refine ⟨(hs₁.order.trans (List.append_nil _)).symm, rfl, fun order hpending => ?_⟩
        have htrap : ∀ n ∈ order, n ∈ trap.blockedSignalsMask := by
          intro n hn
          refine hs₁.trapped n ?_
          rw [hpending]
          exact hn
        have hstate : (s.shared.closeFd.callEnds .returned).state = .notRunning := hs.closing hpc
        exact next_session_takes hstate hpending htrap

/-- A session that finds `SIGCHLD` pending and a `stop` in the same poll. -/
def stoppedWithSignal : List SessionLabel :=
  [.outside (.raise 17), .run, .call .load, .call .store, .call .openFd, .outside .stop,
    .call (.loop (.poll (.ready true true))),
    .call (.loop (.read (.records [17] chldRecord_fits))), .call (.loop .tau),
    .call (.loop .tau), .call .readEvent, .call .leave, .call (.ends .returned)]

theorem stoppedWithSignal_run :
    ∃ s, (sessionSystem chldTrap).Run .start stoppedWithSignal s ∧ s.call = none ∧
      s.shared.removed = [17] := by
  refine ⟨_, .cons (.outside (.raise (by decide) (by decide))) <| .cons (.run rfl) <|
    .cons (.call rfl (.admitted (by decide))) <| .cons (.call rfl .store) <|
    .cons (.call rfl (@CallStep.opened _ _ fun _ => 0)) <| .cons (.outside (.stop rfl)) <|
    .cons (.call rfl (.loop nofun (.signalReady rfl)
      (.ready (by decide) (by decide) (.inl rfl)))) <|
    .cons (.call rfl (.loop nofun (.read rfl)
      (@TrapShared.Answers.records _ _ _ 0 (by decide) (by decide)))) <|
    .cons (.call rfl (.loop nofun (.iterate rfl rfl) .tau)) <|
    .cons (.call rfl (.loop nofun (.loopDone rfl rfl) .tau)) <|
    .cons (.call rfl (.readEvent rfl)) <| .cons (.call rfl (.leave rfl)) <|
    .cons (.call rfl .close) (.nil _), rfl, rfl⟩

theorem signals_conserved_stoppedWithSignal :
    ∃ s, (sessionSystem chldTrap).Run .start stoppedWithSignal s ∧
      (∀ l ∈ stoppedWithSignal, ReadsAndReturns l) ∧ s.shared.raised = [Signal.sigChld] := by
  obtain ⟨s, hrun, hidle, hremoved⟩ := stoppedWithSignal_run
  have hls : ∀ l ∈ stoppedWithSignal, ReadsAndReturns l := by
    simp [stoppedWithSignal, ReadsAndReturns]
  obtain ⟨-, hall, -, -, -⟩ := signals_conserved chldTrap stoppedWithSignal s hrun hls
  refine ⟨s, hrun, hls, ?_⟩
  rw [hall hidle, hremoved]
  rfl

end ProcessCpp.Core
