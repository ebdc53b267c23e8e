import ProcessCpp.Core.AutoKill

/-!
# Who kills a child in a tree of processes (child_process.cpp:293–317)

A fork copies the memory of the caller, and with it every `ChildProcess`, the reference
counts behind them and the observer's map. The destructor of `Private` then runs in
several processes; what keeps all but one from killing is the comment in the source:

    // We need to store the original parent pid as we might have been forked
    // and with our automatic cleanup in place, it might happen that the d'tor
    // is called from the child process.

`treeSystem` has any number of processes that fork, each with its own copies
(`Lifetimes`), its own observer and its own threads. No pid is given out twice.

- `Tree.origin`: for every pid a fork has returned, the process that called it;
- `Lifetimes.Alive`: a process has a copy: in its hands, in its observer's map, or as the
  argument of an `add` in progress;
- `only_creator_kills`: a child is killed at most once, by its creator, with no copy left
  there. A child that is still observed is never killed;
- `killed_iff_let_go`: and with no copy left there, it has been killed.
-/

namespace ProcessCpp.Core

open ProcessCpp.Base ProcessCpp.Posix

/-! ## The copies of one process -/

/-- The process has a copy of the value. -/
def Lifetimes.Alive (s : Lifetimes) (c : ChildProcess) : Prop :=
  c ∈ s.held ∨ s.InMap c ∨ s.InAdd c

/-- The children of a process as it sees them when it starts: it has the memory of its
parent, so it knows the pids of the parent's forks, but none of them is a child of its own
and `waitpid` finds none of them. -/
def seenByChild (k : Kernel) : Kernel where
  slots pid :=
    match k.slots pid with
    | .child _ => .stranger
    | slot => slot
  forks := k.forks
  reaped := List.range k.forks.length
  sigchld := false

/-- The new process `pid`: a copy of all values, and of the observer. -/
def Lifetimes.forkedCopy (s : Lifetimes) (pid : Nat) : Lifetimes :=
  { s with
    self := pid
    -- the copies on the stacks of other threads are in the new process too, where nobody
    -- will ever destroy them
    threads := { s.threads with kernel := seenByChild s.threads.kernel }
    kills := [] }

section

variable {s : Lifetimes}

/-- What a step puts into the map or into the hands of an `add` was there before. -/
theorem Lifetimes.alive_of_threads {t' : ObserverState} {l : ObserverLabel} {kills : List Kill}
    (h : ObserverStep s.threads l t') (hargs : s.Permits l) {c : ChildProcess}
    (hc : Alive { s with threads := t', held := s.heldAfter l, kills } c) :
    s.Alive c ∨ ∃ pid, l = .kernel (.fork pid) ∧ c = .forked pid s.threads.kernel.forks.length := by
  rcases hc with hheld | ⟨pid, hpid⟩ | ⟨i, pc, hi, hpc⟩
  · rcases mem_heldAfter hheld with hheld | hadd | hnew
    · exact .inl (.inl hheld)
    · exact .inl (.inr (.inr hadd))
    · exact .inr hnew
  · left
    cases h with
    | kernel | callAdd | callOnSigChild | waitFor => exact .inr (.inl ⟨pid, hpid⟩)
    | @add j pc l k' o' pc' hj hadd =>
      rcases hadd.children hpid with hold | ⟨-, rfl, -⟩
      · exact .inr (.inl ⟨pid, hold⟩)
      · exact .inr (.inr ⟨j, _, hj, rfl⟩)
    | onSigChild hj hosc => exact .inr (.inl ⟨pid, hosc.children hpid⟩)
  · left
    cases h with
    | kernel | callOnSigChild | onSigChild | waitFor => exact .inr (.inr ⟨i, pc, hi, hpc⟩)
    | @callAdd j d hidle hmade =>
      rcases update_cases hi with ⟨-, ⟨⟩⟩ | ⟨-, hi⟩
      · exact .inl (hpc ▸ hargs)
      · exact .inr (.inr ⟨i, pc, hi, hpc⟩)
    | @add j pc₀ l k' o' pc' hj hadd =>
      rcases update_cases hi with ⟨rfl, rfl⟩ | ⟨-, hi⟩
      · refine .inr (.inr ⟨i, pc₀, hj, ?_⟩)
        rw [← hpc]
        cases hadd <;> rfl
      · exact .inr (.inr ⟨i, pc, hi, hpc⟩)

/-- A step of a thread that destroys the last copy leaves none. -/
theorem Lifetimes.LastCopy.gone_threads {t' : ObserverState} {l : ObserverLabel}
    {kills : List Kill} {c : ChildProcess} (hc : s.LastCopy (.threads l) c)
    (h : ObserverStep s.threads l t') :
    ¬ Alive { s with threads := t', held := s.heldAfter l, kills } c := by
  -- held by the user, in the map, or in the hands of an `add`
  rintro (hheld | ⟨q, hq⟩ | ⟨j, pc, hj, hpc⟩)
  · cases hc with
    | addErase _ _ _ hnot | oscErase _ _ _ hnot => exact hnot hheld
  · cases hc with
    | @addErase i d _ hi hmap hother =>
      cases h with
      | add hi' hadd =>
        rw [hi] at hi'
        cases hi'
        cases hadd with
        | erase =>
          obtain ⟨hne, hold⟩ := Observer.children_erase hq
          exact hne (hother q hold)
    | @oscErase i pid d _ hi hmap hother =>
      cases h with
      | onSigChild hi' hosc =>
        rw [hi] at hi'
        cases hi'
        cases hosc with
        | erase =>
          obtain ⟨hne, hold⟩ := Observer.children_erase hq
          exact hne (hother q hold)
  · cases hc with
    | @addErase i d _ hi hmap hother hheld hadd =>
      cases h with
      | add hi' hstep =>
        rw [hi] at hi'
        cases hi'
        refine hadd ?_
        rcases update_cases hj with ⟨rfl, hnow⟩ | ⟨-, hj⟩
        · cases hstep with
          | erase =>
            cases hnow
            exact ⟨j, _, hi, hpc⟩
        · exact ⟨j, pc, hj, hpc⟩
    | oscErase hi hmap hother hheld hadd =>
      cases h with
      | onSigChild hi' hosc => exact hadd ⟨j, pc, hj, hpc⟩

/-- So does the user who drops it. -/
theorem Lifetimes.LastCopy.gone_drop {kills : List Kill} {c d : ChildProcess}
    (hd : s.LastCopy (.drop c) d) : ¬ Alive { s with held := s.held.erase c, kills } d := by
  cases hd with
  | drop hcount hmap hadd =>
    rintro (hheld | hin | hin)
    · have hnone : (s.held.erase c).count c = 0 := by
        rw [List.count_erase_self, hcount]
      exact List.count_eq_zero.mp hnone hheld
    · exact hmap hin
    · exact hadd hin

end

/-! ## The tree -/

/-- Processes by pid, and for each pid that a fork has returned the process that called
the fork and the serial number of the call. -/
structure Tree where
  procs : Nat → Option Lifetimes
  origin : Nat → Option (Nat × Nat)

namespace Tree

/-- What the destructor of a value does in the process `self`: `original_parent_pid` is the
pid of the process that called the fork. -/
def killsOf (T : Tree) (self : Nat) (k : Kernel) (c : ChildProcess) : List Kill :=
  match T.origin c.pid with
  | some (creator, _) =>
    match privateDtor creator self c.pid with
    | some _ => [⟨c, k.slots c.pid⟩]
    | none => []
  | none => []

/-- The kills a step of one process adds. -/
inductive Destroys (T : Tree) (s : Lifetimes) (l : LifeLabel) : List Kill → Prop where
  | last {c} (h : s.LastCopy l c) : Destroys T s l (T.killsOf s.self s.threads.kernel c)
  | none (h : ∀ c, ¬ s.LastCopy l c) : Destroys T s l []

/-- The steps of one process other than forks. -/
inductive LocalStep (T : Tree) (s : Lifetimes) : LifeLabel → Lifetimes → Prop where
  | threads {l t' kills} (h : ObserverStep s.threads l t') (hfork : ∀ pid, l ≠ .kernel (.fork pid))
      (hargs : s.Permits l) (hkills : T.Destroys s (.threads l) kills) :
      LocalStep T s (.threads l)
        { s with threads := t', held := s.heldAfter l, kills := s.kills ++ kills }
  | copy {c} (hexists : s.Alive c) : LocalStep T s (.copy c) { s with held := c :: s.held }
  | drop {c kills} (hheld : c ∈ s.held) (hkills : T.Destroys s (.drop c) kills) :
      LocalStep T s (.drop c) { s with held := s.held.erase c, kills := s.kills ++ kills }

end Tree

inductive TreeLabel where
  | proc (q : Nat) (l : LifeLabel)
  | fork (p pid : Nat)

/-- A step of one process, or a `core::posix::fork` in one, which gets a pid that no process
and no fork has had. The caller gets the new value, the child has the old ones. -/
inductive TreeStep (T : Tree) : TreeLabel → Tree → Prop where
  | proc {q s l s'} (hq : T.procs q = some s) (h : T.LocalStep s l s') :
      TreeStep T (.proc q l) { T with procs := Function.update T.procs q (some s') }
  | fork {p s pid t'} (hp : T.procs p = some s)
      (h : ObserverStep s.threads (.kernel (.fork pid)) t') (hproc : T.procs pid = none)
      (hpid : T.origin pid = none) :
      TreeStep T (.fork p pid)
        ⟨Function.update
          (Function.update T.procs p
            (some { s with threads := t', held := s.heldAfter (.kernel (.fork pid)) }))
          pid (some (s.forkedCopy pid)),
        Function.update T.origin pid (some (p, s.threads.kernel.forks.length))⟩

def treeSystem : LTS Tree TreeLabel where
  step := TreeStep

/-- One process that holds nothing yet. -/
def Tree.start (root : Nat) (k : Kernel) : Tree where
  procs := Function.update (fun _ => none) root (some (.start root k))
  origin := fun _ => none

/-! ## What holds of every process -/

/-- One process of the tree: its values come from forks of the tree, it has killed only
children of its own forks, each at most once, and has no copy left of those. -/
structure Tree.ProcOk (T : Tree) (q : Nat) (s : Lifetimes) : Prop where
  self : s.self = q
  values : ∀ c, s.Alive c → ∃ p serial, T.origin c.pid = some (p, serial) ∧ c = .forked c.pid serial
  kills : ∀ kill ∈ s.kills, ∃ serial, T.origin kill.value.pid = some (q, serial)
  once : ∀ pid, s.kills.countP (fun kill => kill.value.pid = pid) ≤ 1
  gone : ∀ kill ∈ s.kills, ∀ c, c.pid = kill.value.pid → ¬ s.Alive c

structure Tree.Ok (T : Tree) : Prop where
  procs : ∀ q s, T.procs q = some s → T.ProcOk q s
  creators : ∀ pid p serial, T.origin pid = some (p, serial) → T.procs p ≠ none

theorem Lifetimes.LastCopy.alive {s : Lifetimes} {l : LifeLabel} {c : ChildProcess}
    (h : s.LastCopy l c) : s.Alive c := by
  cases h with
  | drop hcount =>
    have hpos : 0 < s.held.count c := by omega
    exact .inl (List.count_pos_iff.mp hpos)
  | addErase _ hmap | oscErase _ hmap => exact .inr (.inl ⟨_, hmap⟩)

namespace Tree

variable {T : Tree} {s s' : Lifetimes} {l : LifeLabel}

/-- Only the creator's destructor kills. -/
theorem Destroys.cases {kills : List Kill} (h : T.Destroys s l kills) :
    kills = [] ∨ ∃ c serial, kills = [⟨c, s.threads.kernel.slots c.pid⟩] ∧
      T.origin c.pid = some (s.self, serial) ∧ s.LastCopy l c := by
  cases h with
  | none => exact .inl rfl
  | @last c hlast =>
    unfold killsOf
    split
    · rename_i creator serial horigin
      unfold privateDtor
      by_cases hself : creator = s.self
      · subst hself
        have hpid : (c.pid : Int) ≠ -1 := by omega
        rw [if_pos rfl, if_pos hpid]
        exact .inr ⟨c, serial, rfl, horigin, hlast⟩
      · rw [if_neg hself]
        exact .inl rfl
    · exact .inl rfl

/-- A process gets copies only from the ones it has. -/
theorem LocalStep.alive (h : T.LocalStep s l s') {c : ChildProcess} (hc : s'.Alive c) :
    s.Alive c := by
  cases h with
  | threads h hfork hargs =>
    rcases Lifetimes.alive_of_threads h hargs hc with hold | ⟨pid, rfl, -⟩
    · exact hold
    · exact absurd rfl (hfork pid)
  | copy hexists =>
    rcases hc with hheld | hrest
    · rcases List.mem_cons.mp hheld with rfl | hheld
      · exact hexists
      · exact .inl hheld
    · exact .inr hrest
  | drop =>
    rcases hc with hheld | hrest
    · exact .inl (List.mem_of_mem_erase hheld)
    · exact .inr hrest

/-- A step kills nobody, or the child of a value that the process has made and of which it
has destroyed the last copy. -/
theorem LocalStep.kills_cases (h : T.LocalStep s l s') :
    s'.kills = s.kills ∨ ∃ c slot serial, s'.kills = s.kills ++ [⟨c, slot⟩] ∧
      T.origin c.pid = some (s.self, serial) ∧ s.Alive c ∧ ¬ s'.Alive c := by
  cases h with
  | copy => exact .inl rfl
  | threads h hfork hargs hkills =>
    rcases hkills.cases with rfl | ⟨c, serial, rfl, horigin, hlast⟩
    · exact .inl (List.append_nil _)
    · exact .inr ⟨c, _, serial, rfl, horigin, hlast.alive, hlast.gone_threads h⟩
  | drop hheld hkills =>
    rcases hkills.cases with rfl | ⟨c, serial, rfl, horigin, hlast⟩
    · exact .inl (List.append_nil _)
    · exact .inr ⟨c, _, serial, rfl, horigin, hlast.alive, hlast.gone_drop⟩

theorem LocalStep.self_eq (h : T.LocalStep s l s') : s'.self = s.self := by
  cases h <;> rfl

theorem ProcOk.step {q : Nat} (hs : T.ProcOk q s) (h : T.LocalStep s l s') : T.ProcOk q s' := by
  have hself := hs.self
  have hvalues : ∀ c, s'.Alive c →
      ∃ p serial, T.origin c.pid = some (p, serial) ∧ c = .forked c.pid serial :=
    fun c hc => hs.values c (h.alive hc)
  rcases h.kills_cases with heq | ⟨c, slot, serial, heq, horigin, halive, hgone⟩
  · refine ⟨h.self_eq.trans hself, hvalues, ?_, ?_, ?_⟩ <;> rw [heq]
    · exact hs.kills
    · exact hs.once
    · exact fun kill hkill d hd hc => hs.gone kill hkill d hd (h.alive hc)
  · -- the child of a value that is alive has not been killed yet
    have hfirst : s.kills.countP (fun kill => kill.value.pid = c.pid) = 0 := by
      rw [List.countP_eq_zero]
      intro kill hkill hpid
      exact hs.gone kill hkill c (of_decide_eq_true hpid).symm halive
    refine ⟨h.self_eq.trans hself, hvalues, ?_, ?_, ?_⟩ <;> rw [heq]
    · intro kill hkill
      rcases List.mem_append.mp hkill with hkill | hkill
      · exact hs.kills kill hkill
      · rw [List.mem_singleton.mp hkill]
        exact ⟨serial, hself ▸ horigin⟩
    · intro pid
      rw [List.countP_append, List.countP_singleton]
      by_cases hpid : c.pid = pid
      · subst hpid
        rw [hfirst, if_pos (decide_eq_true rfl)]
      · rw [if_neg fun hd => hpid (of_decide_eq_true hd)]
        exact hs.once pid
    · intro kill hkill d hd hc
      rcases List.mem_append.mp hkill with hkill | hkill
      · exact hs.gone kill hkill d hd (h.alive hc)
      · rw [List.mem_singleton.mp hkill] at hd
        -- a pid belongs to one value
        obtain ⟨p, n, hn, hdeq⟩ := hvalues d hc
        obtain ⟨p', n', hn', hceq⟩ := hs.values c halive
        rw [hd] at hn hdeq
        cases hn.symm.trans hn'
        exact hgone (hceq.trans hdeq.symm ▸ hc)

/-- A pid that a fork returns is new, so it says nothing about the values there are. -/
theorem ProcOk.new_origin {q pid p n : Nat} (hs : T.ProcOk q s) (hpid : T.origin pid = none)
    {procs : Nat → Option Lifetimes} :
    ProcOk ⟨procs, Function.update T.origin pid (some (p, n))⟩ q s := by
  have hkept : ∀ m o, T.origin m = some o →
      Function.update T.origin pid (some (p, n)) m = some o := by
    intro m o hm
    have hne : m ≠ pid := by
      rintro rfl
      rw [hpid] at hm
      cases hm
    rw [Function.update_of_ne hne, hm]
  refine ⟨hs.self, fun c hc => ?_, fun kill hkill => ?_, hs.once, hs.gone⟩
  · obtain ⟨p', serial, horigin, hc⟩ := hs.values c hc
    exact ⟨p', serial, hkept _ _ horigin, hc⟩
  · obtain ⟨serial, horigin⟩ := hs.kills kill hkill
    exact ⟨serial, hkept _ _ horigin⟩

/-- The caller of a fork has one value more. -/
theorem ProcOk.forked {p pid : Nat} (hs : T.ProcOk p s) (hpid : T.origin pid = none)
    {procs : Nat → Option Lifetimes} {t' : ObserverState}
    (h : ObserverStep s.threads (.kernel (.fork pid)) t') :
    ProcOk ⟨procs, Function.update T.origin pid (some (p, s.threads.kernel.forks.length))⟩ p
      { s with threads := t', held := s.heldAfter (.kernel (.fork pid)) } := by
  have hold : ProcOk ⟨procs, Function.update T.origin pid
      (some (p, s.threads.kernel.forks.length))⟩ p s := hs.new_origin hpid
  have halive : ∀ c, Lifetimes.Alive
      { s with threads := t', held := s.heldAfter (.kernel (.fork pid)) } c →
      s.Alive c ∨ c = .forked pid s.threads.kernel.forks.length := by
    intro c hc
    have hargs : s.Permits (.kernel (.fork pid)) := trivial
    refine (Lifetimes.alive_of_threads h hargs hc).imp_right ?_
    rintro ⟨q, hq, rfl⟩
    cases hq
    rfl
  refine ⟨hs.self, fun c hc => ?_, hold.kills, hs.once, fun kill hkill c hc hnow => ?_⟩
  · rcases halive c hc with hc | rfl
    · exact hold.values c hc
    · exact ⟨p, _, Function.update_self .., rfl⟩
  · rcases halive c hnow with hnow | rfl
    · exact hs.gone kill hkill c hc hnow
    · -- nobody has been killed under a pid that is new
      obtain ⟨serial, horigin⟩ := hs.kills kill hkill
      rw [← hc] at horigin
      cases hpid.symm.trans horigin

/-- The new process has the copies of its parent, and has killed nobody. -/
theorem ProcOk.forkedCopy {q pid : Nat} (hs : T.ProcOk q s) : T.ProcOk pid (s.forkedCopy pid) where
  self := rfl
  values := hs.values
  kills := nofun
  once := fun _ => Nat.zero_le _
  gone := nofun

theorem Ok.step {T' : Tree} {l : TreeLabel} (hT : T.Ok) (h : TreeStep T l T') : T'.Ok := by
  cases h with
  | @proc q s l s' hq h =>
    have hsame : ∀ {r sr procs}, T.ProcOk r sr → ProcOk { T with procs } r sr :=
      fun h => ⟨h.self, h.values, h.kills, h.once, h.gone⟩
    refine ⟨fun r sr hr => ?_, fun pid p serial horigin => ?_⟩
    · rcases update_cases hr with ⟨rfl, ⟨⟩⟩ | ⟨-, hr⟩
      · exact hsame ((hT.procs r s hq).step h)
      · exact hsame (hT.procs r sr hr)
    · intro hnone
      rcases update_cases hnone with ⟨-, hsome⟩ | ⟨-, hnone⟩
      · cases hsome
      · exact hT.creators pid p serial horigin hnone
  | @fork p s pid t' hp h hproc hpid =>
    refine ⟨fun r sr hr => ?_, fun m p' serial horigin hnone => ?_⟩
    · rcases update_cases hr with ⟨rfl, ⟨⟩⟩ | ⟨-, hr⟩
      · exact ((hT.procs p s hp).new_origin hpid).forkedCopy
      · rcases update_cases hr with ⟨rfl, ⟨⟩⟩ | ⟨-, hr⟩
        · exact (hT.procs r s hp).forked hpid h
        · exact (hT.procs r sr hr).new_origin hpid
    · rcases update_cases hnone with ⟨-, hsome⟩ | ⟨-, hnone⟩
      · cases hsome
      · rcases update_cases hnone with ⟨-, hsome⟩ | ⟨hne, hnone⟩
        · cases hsome
        · rcases update_cases horigin with ⟨-, ⟨⟩⟩ | ⟨-, horigin⟩
          · exact hne rfl
          · exact hT.creators m p' serial horigin hnone

theorem Ok.start (root : Nat) (k : Kernel) : (Tree.start root k).Ok := by
  refine ⟨fun q s hq => ?_, nofun⟩
  have hq' : Function.update (fun _ => none) root (some (Lifetimes.start root k)) q = some s := hq
  rcases update_cases hq' with ⟨rfl, ⟨⟩⟩ | ⟨-, hnone⟩
  · refine ⟨rfl, fun c hc => ?_, nofun, fun _ => Nat.zero_le _, nofun⟩
    rcases hc with hheld | ⟨pid, hpid⟩ | ⟨i, pc, hi, -⟩
    · exact absurd hheld List.not_mem_nil
    · cases hpid
    · cases hi
  · cases hnone

end Tree

/-- **Only the creator kills, once, and only when it has no copy left**: in every tree of
processes built by forks, with copies made, dropped, given to `add` and erased by `add` or
`on_sig_child` in any order in any of them, and no pid given out twice, the child of a fork
is killed by no destructor in any process but the one that called the fork, there at most
once, and not while a copy is left there, in the map of the observer or elsewhere. -/
theorem only_creator_kills (root : Nat) (k : Kernel) (ls : List TreeLabel) (T : Tree)
    (h : treeSystem.Run (.start root k) ls T) (pid p serial : Nat)
    (hpid : T.origin pid = some (p, serial)) :
    (∀ q s, T.procs q = some s → q ≠ p → ∀ kill ∈ s.kills, kill.value.pid ≠ pid) ∧
      ∃ s, T.procs p = some s ∧ s.kills.countP (fun kill => kill.value.pid = pid) ≤ 1 ∧
        ∀ c, c.pid = pid → c ∈ s.held ∨ s.InMap c ∨ s.InAdd c →
          ∀ kill ∈ s.kills, kill.value.pid ≠ pid := by
  have hT : T.Ok := h.invariant (fun _ _ _ hstep hx => hx.step hstep) (Tree.Ok.start root k)
  constructor
  · intro q s hq hne kill hkill heq
    obtain ⟨n, horigin⟩ := (hT.procs q s hq).kills kill hkill
    rw [heq, hpid] at horigin
    cases horigin
    exact hne rfl
  · obtain ⟨s, hs⟩ := Option.ne_none_iff_exists'.mp (hT.creators pid p serial hpid)
    refine ⟨s, hs, (hT.procs p s hs).once pid, fun c hc halive kill hkill heq => ?_⟩
    exact (hT.procs p s hs).gone kill hkill c (hc.trans heq.symm) halive

/-- A process forks twice, the second child drops its copy of the first one's value, and
then the creator does. -/
def bothDrop : List TreeLabel :=
  [.fork 2 5, .fork 2 6, .proc 6 (.drop (.forked 5 0)), .proc 2 (.drop (.forked 5 0))]

theorem bothDrop_run :
    ∃ T, treeSystem.Run (.start 2 .initOnly) bothDrop T ∧ T.origin 5 = some (2, 0) ∧
      ∃ s, T.procs 2 = some s ∧ s.kills = [⟨.forked 5 0, .child ⟨0, true, .running⟩⟩] := by
  refine ⟨_, .cons (.fork rfl (.kernel (.fork (by decide) rfl)) rfl rfl) <|
    .cons (.fork rfl (.kernel (.fork (by decide) rfl)) rfl rfl) <|
    .cons (.proc rfl (.drop (List.mem_singleton_self _) (.last (.drop rfl ?_ ?_)))) <|
    .cons (.proc rfl (.drop (List.mem_cons_of_mem _ (List.mem_singleton_self _))
      (.last (.drop rfl ?_ ?_)))) (.nil _), rfl, _, rfl, rfl⟩
  · exact fun ⟨pid, hpid⟩ => nomatch hpid
  · exact fun ⟨i, pc, hpc, _⟩ => nomatch hpc
  · exact fun ⟨pid, hpid⟩ => nomatch hpid
  · exact fun ⟨i, pc, hpc, _⟩ => nomatch hpc

theorem only_creator_kills_bothDrop :
    ∃ T s, treeSystem.Run (.start 2 .initOnly) bothDrop T ∧ T.origin 5 = some (2, 0) ∧
      T.procs 2 = some s ∧ s.kills.length = 1 ∧
      s.kills.countP (fun kill => kill.value.pid = 5) ≤ 1 ∧
      ∀ q s, T.procs q = some s → q ≠ 2 → ∀ kill ∈ s.kills, kill.value.pid ≠ 5 := by
  obtain ⟨T, hrun, horigin, s, hs, hkills⟩ := bothDrop_run
  obtain ⟨hothers, s', hs', honce, -⟩ :=
    only_creator_kills 2 .initOnly bothDrop T hrun 5 2 0 horigin
  cases hs.symm.trans hs'
  exact ⟨T, s, hrun, horigin, hs, congrArg List.length hkills, honce, hothers⟩

/-! ## Nobody is left running -/

namespace Lifetimes

variable {s : Lifetimes} {c : ChildProcess}

/-- The hands of the user lose a copy only to the argument of an `add`, and get it back when
the call returns. -/
theorem mem_heldAfter_of_held {ol : ObserverLabel} {t' : ObserverState}
    (h : ObserverStep s.threads ol t') (hc : c ∈ s.held) :
    c ∈ s.heldAfter ol ∨ ∃ i pc, t'.adding i = some pc ∧ pc.child = c := by
  unfold heldAfter
  split
  · exact .inl (List.mem_cons_of_mem _ hc)
  · rename_i i d
    cases h with
    | callAdd hidle hmade =>
      by_cases hcd : c = d
      · exact .inr ⟨i, .start d, Function.update_self .., hcd.symm⟩
      · exact .inl ((List.mem_erase_of_ne hcd).mpr hc)
  · split
    · exact .inl (List.mem_cons_of_mem _ hc)
    · exact .inl hc
  · exact .inl hc

theorem heldAfter_ret {i : Nat} {pc : AddPc} {result : Bool}
    (hi : s.threads.adding i = some pc) :
    s.heldAfter (.add i (.ret result)) = pc.child :: s.held := by
  simp only [heldAfter, hi]

/-- The argument of an `add` is in the hands of the user once more when the call returns. -/
theorem inAdd_kept {ol : ObserverLabel} {t' : ObserverState} (h : ObserverStep s.threads ol t')
    (hc : s.InAdd c) : c ∈ s.heldAfter ol ∨ ∃ i pc, t'.adding i = some pc ∧ pc.child = c := by
  obtain ⟨i, pc, hi, hpc⟩ := hc
  cases h with
  | kernel | callOnSigChild | onSigChild | waitFor => exact .inr ⟨i, pc, hi, hpc⟩
  | @callAdd j d hidle hmade =>
    have hne : i ≠ j := by
      rintro rfl
      cases hi.symm.trans hidle
    exact .inr ⟨i, pc, (Function.update_of_ne hne ..).trans hi, hpc⟩
  | @add j pc₀ al k' o' pc' hj hadd =>
    by_cases hij : i = j
    · subst hij
      cases hi.symm.trans hj
      cases pc' with
      | some pc' => exact .inr ⟨i, pc', Function.update_self .., (hadd.child).trans hpc⟩
      | none =>
        left
        cases hadd with
        | invalidPid | unlock =>
          rw [heldAfter_ret hi]
          exact List.mem_cons.mpr (.inl hpc.symm)
    · exact .inr ⟨i, pc, (Function.update_of_ne hij ..).trans hi, hpc⟩

/-- A copy in the map goes only when `add` or `on_sig_child` erases it. -/
theorem inMap_kept {ol : ObserverLabel} {t' : ObserverState} (h : ObserverStep s.threads ol t')
    {pid : Nat} (hc : s.threads.observer.children pid = some c) :
    t'.observer.children pid = some c ∨
      (∃ i d, ol = .add i .erase ∧ s.threads.adding i = some (.emitted d) ∧ d.pid = pid) ∨
      ∃ i d, ol = .onSigChild i .erase ∧ s.threads.handling i = some (.emitted pid d) := by
  cases h with
  | kernel | callAdd | callOnSigChild | waitFor => exact .inl hc
  | @add i pc al k' o' pc' hi hadd =>
    rcases hadd.children_kept hc with hkept | ⟨d, rfl, hpid⟩
    · exact .inl hkept
    · cases hadd with
      | erase => exact .inr (.inl ⟨i, d, rfl, hi, hpid⟩)
  | @onSigChild i pc al k' o' pc' hi hosc =>
    rcases hosc.children_kept hc with hkept | ⟨d, rfl⟩
    · exact .inl hkept
    · cases hosc with
      | erase => exact .inr (.inr ⟨i, d, rfl, hi⟩)

/-- A step of a thread that leaves no copy has destroyed the last one. -/
theorem alive_or_lastCopy {ol : ObserverLabel} {t' : ObserverState} {kills : List Kill}
    (h : ObserverStep s.threads ol t') (hc : s.Alive c) :
    Alive { s with threads := t', held := s.heldAfter ol, kills } c ∨
      s.LastCopy (.threads ol) c := by
  by_cases hafter : Alive { s with threads := t', held := s.heldAfter ol, kills } c
  · exact .inl hafter
  · right
    have hheld : c ∉ s.held := fun hheld =>
      hafter ((mem_heldAfter_of_held h hheld).imp_right .inr)
    have hadd : ¬ s.InAdd c := fun hadd => hafter ((inAdd_kept h hadd).imp_right .inr)
    have hmap : ∀ {pid}, s.threads.observer.children pid = some c →
        (∃ i d, ol = .add i .erase ∧ s.threads.adding i = some (.emitted d) ∧ d.pid = pid) ∨
          ∃ i d, ol = .onSigChild i .erase ∧ s.threads.handling i = some (.emitted pid d) :=
      fun hpid => (inMap_kept h hpid).resolve_left fun hkept => hafter (.inr (.inl ⟨_, hkept⟩))
    obtain ⟨pid, hpid⟩ : s.InMap c := (hc.resolve_left hheld).resolve_right hadd
    -- every entry that the value had is the one entry that the step erases
    rcases hmap hpid with ⟨i, d, rfl, hi, rfl⟩ | ⟨i, d, rfl, hi⟩
    · refine .addErase hi hpid (fun q hq => ?_) hheld hadd
      rcases hmap hq with ⟨j, e, hj, hje, rfl⟩ | ⟨j, e, ⟨⟩, -⟩
      cases hj
      cases hi.symm.trans hje
      rfl
    · refine .oscErase hi hpid (fun q hq => ?_) hheld hadd
      rcases hmap hq with ⟨j, e, ⟨⟩, -, -⟩ | ⟨j, e, hj, hje⟩
      cases hj
      cases hi.symm.trans hje
      rfl

end Lifetimes

namespace Tree

variable {T : Tree} {s s' : Lifetimes} {l : LifeLabel} {c : ChildProcess} {serial : Nat}

/-- In the process that made a value, its destructor kills. -/
theorem killsOf_creator {k : Kernel} {self : Nat} (horigin : T.origin c.pid = some (self, serial)) :
    T.killsOf self k c = [⟨c, k.slots c.pid⟩] := by
  have hpid : (c.pid : Int) ≠ -1 := by omega
  have hdtor : privateDtor self self c.pid = some ((c.pid : Int), Signal.sigKill) := by
    unfold privateDtor
    rw [if_pos rfl, if_pos hpid]
  simp only [killsOf, horigin, hdtor]

theorem Destroys.kills_of_last {kills : List Kill} (h : T.Destroys s l kills)
    (hlast : s.LastCopy l c) (horigin : T.origin c.pid = some (s.self, serial)) :
    ∃ kill ∈ kills, kill.value = c := by
  cases h with
  | none hnone => exact absurd hlast (hnone c)
  | last hlast' =>
    cases hlast'.unique hlast
    rw [killsOf_creator horigin]
    exact ⟨_, List.mem_singleton_self _, rfl⟩

/-- A process that had a copy of a value it has made still has one, or has killed. -/
theorem LocalStep.alive_or_killed (h : T.LocalStep s l s') (hc : s.Alive c)
    (horigin : T.origin c.pid = some (s.self, serial)) :
    s'.Alive c ∨ ∃ kill ∈ s'.kills, kill.value = c := by
  have hkilled : ∀ {kills}, T.Destroys s l kills → s.LastCopy l c →
      ∃ kill ∈ s.kills ++ kills, kill.value = c := by
    intro kills hkills hlast
    obtain ⟨kill, hkill, hvalue⟩ := hkills.kills_of_last hlast horigin
    exact ⟨kill, List.mem_append_right _ hkill, hvalue⟩
  cases h with
  | threads h hfork hargs hkills =>
    exact (Lifetimes.alive_or_lastCopy h hc).imp_right (hkilled hkills)
  | copy =>
    rcases hc with hheld | hrest
    · exact .inl (.inl (List.mem_cons_of_mem _ hheld))
    · exact .inl (.inr hrest)
  | @drop d kills hheld hkills =>
    rcases hc with hc | hrest
    · by_cases hstill : c ∈ s.held.erase d
      · exact .inl (.inl hstill)
      · have hcd : c = d := by
          by_contra hcd
          exact hstill ((List.mem_erase_of_ne hcd).mpr hc)
        subst hcd
        have hone : s.held.count c = 1 := by
          have hnone := List.count_eq_zero.mpr hstill
          rw [List.count_erase_self] at hnone
          have hpos := List.count_pos_iff.mpr hc
          omega
        by_cases hrest : s.InMap c ∨ s.InAdd c
        · exact .inl (.inr hrest)
        · rw [not_or] at hrest
          exact .inr (hkilled hkills (.drop hone hrest.1 hrest.2))
    · exact .inl (.inr hrest)

theorem LocalStep.kills_kept (h : T.LocalStep s l s') {kill : Kill} (hkill : kill ∈ s.kills) :
    kill ∈ s'.kills := by
  cases h with
  | copy => exact hkill
  | threads | drop => exact List.mem_append_left _ hkill

/-- Of each value a process has made, it has a copy, or it has killed the child. -/
def Settled (T : Tree) : Prop :=
  ∀ pid p serial s, T.origin pid = some (p, serial) → T.procs p = some s →
    s.Alive (.forked pid serial) ∨ ∃ kill ∈ s.kills, kill.value = .forked pid serial

theorem Settled.step {T' : Tree} {l : TreeLabel} (hset : T.Settled) (hT : T.Ok)
    (h : TreeStep T l T') : T'.Settled := by
  intro pid p serial s horigin hp
  cases h with
  | @proc q s₀ l s' hq h =>
    rcases update_cases hp with ⟨rfl, ⟨⟩⟩ | ⟨-, hp⟩
    · rcases hset pid p serial s₀ horigin hq with halive | ⟨kill, hkill, hvalue⟩
      · have hmine : T.origin pid = some (s₀.self, serial) := by
          rw [(hT.procs p s₀ hq).self]
          exact horigin
        exact h.alive_or_killed halive hmine
      · exact .inr ⟨kill, h.kills_kept hkill, hvalue⟩
    · exact hset pid p serial s horigin hp
  | @fork q s₀ new t' hq h hproc hnew =>
    -- the new process has made nothing yet
    have hpnew : p ≠ new := by
      rintro rfl
      rcases update_cases horigin with ⟨-, ⟨⟩⟩ | ⟨-, hold⟩
      · cases hproc.symm.trans hq
      · exact hT.creators pid p serial hold hproc
    have hp' : Function.update T.procs q (some { s₀ with
        threads := t', held := s₀.heldAfter (.kernel (.fork new)) }) p = some s :=
      (Function.update_of_ne hpnew ..).symm.trans hp
    rcases update_cases horigin with ⟨rfl, ⟨⟩⟩ | ⟨-, hold⟩
    · cases (Function.update_self ..).symm.trans hp'
      exact .inl (.inl (List.mem_cons_self ..))
    · rcases update_cases hp' with ⟨rfl, ⟨⟩⟩ | ⟨-, hp⟩
      · refine (hset pid p serial s₀ hold hq).imp_left fun halive => ?_
        refine (Lifetimes.alive_or_lastCopy h halive).resolve_right ?_
        rintro ⟨⟩
      · exact hset pid p serial s hold hp

end Tree

/-- **Nobody is left running**: in every tree of processes, the child of a fork has been
killed in the process that called the fork as soon as no copy is left there, and at that
time exactly once; while a copy is left there, and in every other process, it has not. -/
theorem killed_iff_let_go (root : Nat) (k : Kernel) (ls : List TreeLabel) (T : Tree)
    (h : treeSystem.Run (.start root k) ls T) (pid p serial : Nat)
    (hpid : T.origin pid = some (p, serial)) (q : Nat) (s : Lifetimes)
    (hq : T.procs q = some s) :
    (q = p ∧ ¬ s.Alive (.forked pid serial) →
        s.kills.countP (fun kill => kill.value.pid = pid) = 1) ∧
      (¬ (q = p ∧ ¬ s.Alive (.forked pid serial)) →
        s.kills.countP (fun kill => kill.value.pid = pid) = 0) := by
  obtain ⟨hT, hset⟩ : T.Ok ∧ T.Settled := by
    refine h.invariant (P := fun T => T.Ok ∧ T.Settled) ?_ ⟨Tree.Ok.start root k, nofun⟩
    exact fun _ _ _ hstep hx => ⟨hx.1.step hstep, hx.2.step hx.1 hstep⟩
  have hs := hT.procs q s hq
  constructor
  · rintro ⟨rfl, hgone⟩
    obtain ⟨kill, hkill, hvalue⟩ := (hset pid q serial s hpid hq).resolve_left hgone
    have hpos : 0 < s.kills.countP (fun kill => kill.value.pid = pid) := by
      rw [List.countP_pos_iff]
      refine ⟨kill, hkill, ?_⟩
      rw [hvalue]
      exact decide_eq_true rfl
    have honce := hs.once pid
    omega
  · intro hkept
    rw [List.countP_eq_zero]
    intro kill hkill heq
    have heq := of_decide_eq_true heq
    obtain ⟨n, horigin⟩ := hs.kills kill hkill
    rw [heq, hpid] at horigin
    cases horigin
    exact hkept ⟨rfl, hs.gone kill hkill _ heq.symm⟩

theorem killed_iff_let_go_bothDrop :
    ∃ T s, treeSystem.Run (.start 2 .initOnly) bothDrop T ∧ T.procs 2 = some s ∧
      ¬ s.Alive (.forked 5 0) ∧ s.kills.countP (fun kill => kill.value.pid = 5) = 1 := by
  obtain ⟨T, hrun, horigin, s, hs, hkills⟩ := bothDrop_run
  have hgone : ¬ s.Alive (.forked 5 0) := by
    intro halive
    have hnone := (killed_iff_let_go 2 .initOnly bothDrop T hrun 5 2 0 horigin 2 s hs).2
      fun h => h.2 halive
    rw [hkills] at hnone
    cases hnone
  exact ⟨T, s, hrun, hs, hgone,
    (killed_iff_let_go 2 .initOnly bothDrop T hrun 5 2 0 horigin 2 s hs).1 ⟨rfl, hgone⟩⟩

end ProcessCpp.Core
