import Mathlib.Logic.Relation
import ProcessCpp.Base.Prelude
import ProcessCpp.Base.Transition
import ProcessCpp.Core.Fork

/-!
# Who holds the ends of a child's pipes

Whole runs of processes that open and close descriptors, duplicate themselves, end,
call `core::posix::fork`, and keep or drop the `ChildProcess` objects they get from it.

Processes are named by numbers that are never reused. A call of `core::posix::fork`
is one step: the caller is a single thread, and what the new child does meanwhile
happens in its own table.

- `ForkStep`: the steps; `FdOp` are the plain calls a process can make;
- `Flow`: what any step can do to the ends of pipes: an end that was there before
  stays with its holder or goes to a process it created, and all others are new;
- `OnlyKin w q d`: nobody holds `d` but `q` and its descendants.

`forked_streams_wired` puts together what a call of `fork` sets up (`fork_spec`) and
what stays true from then on (`onlyKin_run`).
-/

namespace ProcessCpp.Core

open ProcessCpp.Base ProcessCpp.Posix

/-! ## Processes -/

/-- What a process has in memory and in its descriptor table. -/
structure ProcImage where
  table : FdTable Descr
  invalidDone : Bool
  /-- the `ChildProcess` objects alive -/
  objects : List ForkedChild

structure ForkWorld where
  procs : Nat → Option ProcImage
  nextProc : Nat
  /-- pairs of a process and one it created -/
  born : List (Nat × Nat)
  nextPipe : Nat

namespace ForkWorld

/-- The state in which code of a process runs; no system call fails. -/
def fdState (w : ForkWorld) (img : ProcImage) : FdState where
  table := img.table
  invalidDone := img.invalidDone
  nextPipe := w.nextPipe
  faults := []

/-- `p` is `q` or descends from it. -/
def Kin (w : ForkWorld) (q p : Nat) : Prop :=
  Relation.ReflTransGen (fun a b => (a, b) ∈ w.born) q p

/-- Nobody holds the description but `q` and its descendants. -/
def OnlyKin (w : ForkWorld) (q : Nat) (d : Descr) : Prop :=
  ∀ p img n, w.procs p = some img → img.table.get n = some d → w.Kin q p

/-- The pipes there are have numbers below the next one, and so have the processes. -/
structure WellFormed (w : ForkWorld) : Prop where
  pipes : ∀ p img n id side, w.procs p = some img → img.table.get n = some (.pipe id side) →
    id < w.nextPipe
  procs : ∀ p, w.nextProc ≤ p → w.procs p = none

end ForkWorld

/-- The plain calls on descriptors; `openFile` gives a description that is no pipe. -/
inductive FdOp where
  | pipe
  | dup (fd : Nat)
  | dup2 (fd target : Nat)
  | close (fd : Nat)
  | openFile (n : Nat)
deriving DecidableEq, Repr

def FdOp.run : FdOp → FdState → FdState
  | .pipe, k => (sysPipe k).2
  | .dup fd, k => (sysDup fd k).2
  | .dup2 fd target, k => (sysDup2 (some fd) target k).2
  | .close fd, k => (closeFd (some fd) k).2
  | .openFile n, k => { k with table := (k.table.alloc (.other n)).2 }

inductive ForkLabel where
  | call (p : Nat) (op : FdOp)
  | rawFork (p : Nat)
  | exit (p : Nat)
  | drop (p i : Nat)
  | fork (p : Nat) (flags : StandardStream)
deriving DecidableEq, Repr

inductive ForkStep : ForkWorld → ForkLabel → ForkWorld → Prop where
  /-- a process makes a plain call -/
  | call {w : ForkWorld} {p : Nat} {img : ProcImage} (op : FdOp) : w.procs p = some img →
      ForkStep w (.call p op)
        { w with
          procs :=
            Function.update w.procs p (some { img with table := (op.run (w.fdState img)).table })
          nextPipe := (op.run (w.fdState img)).nextPipe }
  /-- a process duplicates itself without the library -/
  | rawFork {w : ForkWorld} {p : Nat} {img : ProcImage} : w.procs p = some img →
      ForkStep w (.rawFork p)
        { w with
          procs := Function.update w.procs w.nextProc (some img)
          nextProc := w.nextProc + 1
          born := (p, w.nextProc) :: w.born }
  /-- a process ends -/
  | exit {w : ForkWorld} {p : Nat} {img : ProcImage} : w.procs p = some img →
      ForkStep w (.exit p) { w with procs := Function.update w.procs p none }
  /-- a process destroys one of its objects, and with it the object's pipes -/
  | drop {w : ForkWorld} {p i : Nat} {img : ProcImage} {object : ForkedChild} :
      w.procs p = some img → img.objects[i]? = some object →
      ForkStep w (.drop p i)
        { w with
          procs := Function.update w.procs p (some { img with
            table := (object.d.pipes.dtor (w.fdState img)).2.table
            objects := img.objects.eraseIdx i }) }
  /-- a call of `core::posix::fork` that returned in the parent and reached `main` in the
  child; the child has a copy of the parent's memory -/
  | fork {w : ForkWorld} {p : Nat} {img : ProcImage} {flags : StandardStream}
      {object : ForkedChild} {ps : Streams} {kc k' : FdState} : w.procs p = some img →
      Core.fork p w.nextProc flags [] (w.fdState img) = (.ok (object, (.ok ps, kc)), k') →
      ForkStep w (.fork p flags)
        { procs := Function.update
            (Function.update w.procs p (some ⟨k'.table, k'.invalidDone, img.objects ++ [object]⟩))
            w.nextProc (some ⟨kc.table, kc.invalidDone, img.objects⟩)
          nextProc := w.nextProc + 1
          born := (p, w.nextProc) :: w.born
          nextPipe := k'.nextPipe }

def forkSystem : LTS ForkWorld ForkLabel where
  step := ForkStep

/-! ## What a step can do -/

/-- Where the ends of pipes can be after a step. -/
structure Flow (w w' : ForkWorld) : Prop where
  nextPipe_le : w.nextPipe ≤ w'.nextPipe
  nextProc_le : w.nextProc ≤ w'.nextProc
  born : ∀ e ∈ w.born, e ∈ w'.born
  unborn : ∀ p, w'.nextProc ≤ p → w.procs p = none → w'.procs p = none
  held : ∀ p img n id side, w'.procs p = some img → img.table.get n = some (.pipe id side) →
    (∃ p₀ img₀ n₀, w.procs p₀ = some img₀ ∧ img₀.table.get n₀ = some (.pipe id side) ∧
      (p₀ = p ∨ (p₀, p) ∈ w'.born)) ∨
    (w.nextPipe ≤ id ∧ id < w'.nextPipe)

open ForkWorld

/-- A plain call leaves descriptions that were there, descriptions that are no pipes,
and the ends of the next pipe. -/
theorem FdOp.run_descr (op : FdOp) {k : FdState} (hquiet : k.faults = []) :
    k.nextPipe ≤ (op.run k).nextPipe ∧
    ∀ n id side, (op.run k).table.get n = some (.pipe id side) →
      (∃ m, k.table.get m = some (.pipe id side)) ∨
      (k.nextPipe ≤ id ∧ id < (op.run k).nextPipe) := by
  have hnext : k.nextFault = none := by
    rw [FdState.nextFault, hquiet]
    rfl
  cases op with
  | pipe =>
    simp only [FdOp.run, sysPipe, hnext]
    refine ⟨Nat.le_succ _, fun n id side hd => ?_⟩
    rcases FdTable.get_of_set hd with hwrite | hd
    · cases hwrite
      exact .inr ⟨Nat.le_refl _, Nat.lt_succ_self _⟩
    rcases FdTable.get_of_set hd with hread | hd
    · cases hread
      exact .inr ⟨Nat.le_refl _, Nat.lt_succ_self _⟩
    exact .inl ⟨n, hd⟩
  | dup fd =>
    simp only [FdOp.run, sysDup, hnext, FdTable.dup]
    cases hfd : k.table.get fd with
    | none => exact ⟨Nat.le_refl _, fun n id side hd => .inl ⟨n, hd⟩⟩
    | some d =>
      -- the new number stands for what `fd` stands for
      refine ⟨Nat.le_refl _, fun n id side hd => .inl ?_⟩
      rcases FdTable.get_of_set hd with rfl | hd
      · exact ⟨fd, hfd⟩
      · exact ⟨n, hd⟩
  | dup2 fd target =>
    simp only [FdOp.run, sysDup2, hnext, FdTable.dup2, Option.bind_some]
    cases hfd : k.table.get fd with
    | none => exact ⟨Nat.le_refl _, fun n id side hd => .inl ⟨n, hd⟩⟩
    | some d =>
      refine ⟨Nat.le_refl _, fun n id side hd => .inl ?_⟩
      rcases FdTable.get_of_set hd with rfl | hd
      · exact ⟨fd, hfd⟩
      · exact ⟨n, hd⟩
  | close fd =>
    refine ⟨Nat.le_refl _, fun n id side hd => .inl ⟨n, ?_⟩⟩
    have hclosed : (k.table.closeOpt (some fd)).get n = some (.pipe id side) := hd
    exact FdTable.get_of_closeOpt hclosed
  | openFile x =>
    refine ⟨Nat.le_refl _, fun n id side hd => .inl ⟨n, ?_⟩⟩
    rcases FdTable.get_of_set hd with hother | hd
    · cases hother
    · exact hd

/-- The descriptors of three pipes, in the order their destructors close them. -/
def Streams.fds (ps : Streams) : List (Option Nat) :=
  [ps.stderr.readFd, ps.stderr.writeFd, ps.stdout.readFd, ps.stdout.writeFd, ps.stdin.readFd,
    ps.stdin.writeFd]

theorem Streams.dtor_table (ps : Streams) (k : FdState) :
    (ps.dtor k).2.table = ps.fds.foldl FdTable.closeOpt k.table := rfl

/-- Destroying pipes only takes descriptors away. -/
theorem Streams.get_of_dtor {ps : Streams} {k : FdState} {n : Nat} {d : Descr}
    (h : (ps.dtor k).2.table.get n = some d) : k.table.get n = some d := by
  rw [Streams.dtor_table] at h
  exact (FdTable.get_of_foldl_closeOpt h).1

/-- A call of `fork` that was observed is one `fork_spec` describes. -/
theorem fork_wired {w : ForkWorld} {p : Nat} {img : ProcImage} {flags : StandardStream}
    {object : ForkedChild} {ps : Streams} {kc k' : FdState}
    (h : Core.fork p w.nextProc flags [] (w.fdState img) = (.ok (object, (.ok ps, kc)), k')) :
    ∃ ids, NewPipes flags ids w.nextPipe k'.nextPipe ∧ w.nextPipe ≤ k'.nextPipe ∧
      ParentWired flags ids img.table k'.table object ∧
      ChildWired flags ids img.table kc.table ∧ Inherits flags img.table kc.table := by
  obtain ⟨⟨object', side'⟩, k'', heq, ids, ps', kc', hside, hnew, hle, hparent, hchild⟩ :=
    fork_spec (k := w.fdState img) rfl p w.nextProc flags
  rw [h] at heq
  cases heq
  cases hside
  exact ⟨ids, hnew, hle, hparent, hchild⟩

/-- A process whose new table has only descriptions it had before, or ends of new pipes. -/
theorem flow_of_replace {w : ForkWorld} {p nextPipe' : Nat} {img img' : ProcImage}
    (hp : w.procs p = some img) (hlt : p < w.nextProc) (hnext : w.nextPipe ≤ nextPipe')
    (hdescr : ∀ n id side, img'.table.get n = some (.pipe id side) →
      (∃ m, img.table.get m = some (.pipe id side)) ∨ (w.nextPipe ≤ id ∧ id < nextPipe')) :
    Flow w { w with procs := Function.update w.procs p (some img'), nextPipe := nextPipe' } := by
  refine ⟨hnext, Nat.le_refl _, fun e he => he, fun q hq hnone => ?_, ?_⟩
  · have hne : q ≠ p := Nat.ne_of_gt (Nat.lt_of_lt_of_le hlt hq)
    exact (Function.update_of_ne hne ..).trans hnone
  · intro q qimg n id side hq hd
    rcases update_cases hq with ⟨rfl, ⟨⟩⟩ | ⟨-, hq⟩
    · rcases hdescr n id side hd with ⟨m, hm⟩ | hnew
      · exact .inl ⟨q, img, m, hp, hm, .inl rfl⟩
      · exact .inr hnew
    · exact .inl ⟨q, qimg, n, hq, hd, .inl rfl⟩

theorem flow_of_step {w w' : ForkWorld} {lab : ForkLabel} (hw : w.WellFormed)
    (h : ForkStep w lab w') : Flow w w' := by
  have hfree : ∀ {p img}, w.procs p = some img → p < w.nextProc := by
    intro p img hp
    refine Nat.lt_of_not_le fun hle => ?_
    rw [hw.procs p hle] at hp
    cases hp
  cases h with
  | @call p img op hp =>
    obtain ⟨hnext, hdescr⟩ := op.run_descr (k := w.fdState img) rfl
    exact flow_of_replace hp (hfree hp) hnext hdescr
  | @rawFork p img hp =>
    refine ⟨Nat.le_refl _, Nat.le_succ _, fun e he => List.mem_cons_of_mem _ he,
      fun q hq hnone => ?_, ?_⟩
    · exact (Function.update_of_ne (Nat.ne_of_gt hq) ..).trans hnone
    · intro q qimg n id side hq hd
      rcases update_cases hq with ⟨rfl, ⟨⟩⟩ | ⟨-, hq⟩
      · exact .inl ⟨p, img, n, hp, hd, .inr List.mem_cons_self⟩
      · exact .inl ⟨q, qimg, n, hq, hd, .inl rfl⟩
  | @exit p img hp =>
    refine ⟨Nat.le_refl _, Nat.le_refl _, fun e he => he, fun q hq hnone => ?_, ?_⟩
    · show Function.update w.procs p none q = none
      by_cases hne : q = p
      · rw [hne, Function.update_self]
      · rw [Function.update_of_ne hne, hnone]
    · intro q qimg n id side hq hd
      rcases update_cases hq with ⟨-, hgone⟩ | ⟨-, hq⟩
      · cases hgone
      · exact .inl ⟨q, qimg, n, hq, hd, .inl rfl⟩
  | @drop p i img object hp hobject =>
    refine flow_of_replace hp (hfree hp) (Nat.le_refl _) fun n id side hd => ?_
    exact .inl ⟨n, Streams.get_of_dtor hd⟩
  | @fork p img flags object ps kc k' hp hfork =>
    obtain ⟨ids, hnew, hle, hparent, hchild, -⟩ := fork_wired hfork
    refine ⟨hle, Nat.le_succ _, fun e he => List.mem_cons_of_mem _ he, fun q hq hnone => ?_, ?_⟩
    · have hne : q ≠ p := Nat.ne_of_gt (Nat.lt_trans (hfree hp) hq)
      exact (Function.update_of_ne (Nat.ne_of_gt hq) ..).trans
        ((Function.update_of_ne hne ..).trans hnone)
    · intro q qimg n id side hq hd
      rcases update_cases hq with ⟨rfl, ⟨⟩⟩ | ⟨-, hq⟩
      · -- the child has the parent's descriptors and its ends of the new pipes
        rcases hchild.only n _ hd with hbase | ⟨s, hs, he⟩
        · exact .inl ⟨p, img, n, hp, hbase, .inr List.mem_cons_self⟩
        · cases he
          exact .inr ⟨hnew.new s, hnew.made s hs⟩
      · rcases update_cases hq with ⟨rfl, ⟨⟩⟩ | ⟨-, hq⟩
        · rcases hparent.only hd with hbase | ⟨s, hs, he⟩
          · exact .inl ⟨q, img, n, hp, hbase, .inl rfl⟩
          · cases he
            exact .inr ⟨hnew.new s, hnew.made s hs⟩
        · exact .inl ⟨q, qimg, n, hq, hd, .inl rfl⟩

/-! ## What holds along a run -/

theorem Flow.wellFormed {w w' : ForkWorld} (h : Flow w w') (hw : w.WellFormed) :
    w'.WellFormed where
  pipes p img n id side hp hd := by
    rcases h.held p img n id side hp hd with ⟨p₀, img₀, n₀, hp₀, hd₀, -⟩ | hnew
    · exact Nat.lt_of_lt_of_le (hw.pipes p₀ img₀ n₀ id side hp₀ hd₀) h.nextPipe_le
    · exact hnew.2
  procs p hp := h.unborn p hp (hw.procs p (Nat.le_trans h.nextProc_le hp))

theorem wellFormed_run {w w' : ForkWorld} {ls : List ForkLabel} (h : forkSystem.Run w ls w')
    (hw : w.WellFormed) : w'.WellFormed :=
  h.invariant (fun _ _ _ hstep hs => (flow_of_step hs hstep).wellFormed hs) hw

theorem Kin.mono {w w' : ForkWorld} (hborn : ∀ e ∈ w.born, e ∈ w'.born) {q p : Nat}
    (h : w.Kin q p) : w'.Kin q p := by
  induction h with
  | refl => exact .refl
  | tail _ hedge ih => exact ih.tail (hborn _ hedge)

/-- A step keeps an end that is not new among the kin of its holder. -/
theorem Flow.onlyKin {w w' : ForkWorld} (h : Flow w w') {q id : Nat} {side : PipeEnd}
    (hid : id < w.nextPipe) (honly : w.OnlyKin q (.pipe id side)) :
    w'.OnlyKin q (.pipe id side) := by
  intro p img n hp hd
  rcases h.held p img n id side hp hd with ⟨p₀, img₀, n₀, hp₀, hd₀, hedge⟩ | hnew
  · have hkin := Kin.mono h.born (honly p₀ img₀ n₀ hp₀ hd₀)
    rcases hedge with rfl | hedge
    · exact hkin
    · exact hkin.tail hedge
  · omega

theorem onlyKin_run {w w' : ForkWorld} {ls : List ForkLabel} (h : forkSystem.Run w ls w')
    (hw : w.WellFormed) {q id : Nat} {side : PipeEnd} (hid : id < w.nextPipe)
    (honly : w.OnlyKin q (.pipe id side)) : w'.OnlyKin q (.pipe id side) := by
  have hinv : w'.WellFormed ∧ id < w'.nextPipe ∧ w'.OnlyKin q (.pipe id side) := by
    refine h.invariant (P := fun v => v.WellFormed ∧ id < v.nextPipe ∧ v.OnlyKin q (.pipe id side))
      ?_ ⟨hw, hid, honly⟩
    rintro v lab v' hstep ⟨hv, hidv, hkin⟩
    have hflow := flow_of_step hv hstep
    exact ⟨hflow.wellFormed hv, Nat.lt_of_lt_of_le hidv hflow.nextPipe_le, hflow.onlyKin hidv hkin⟩
  exact hinv.2.2

/-! ## Wiring -/

/-- What a call of `fork` by `p` has set up when it returned in `p` and `main` starts in
the child: `ids` are the pipes made for the streams in the flags. -/
structure CallWired (w w' : ForkWorld) (p : Nat) (flags : StandardStream) (ids : Stream → Nat)
    (before after child : ProcImage) (object : ForkedChild) : Prop where
  caller : w.procs p = some before
  parent : w'.procs p = some after
  forked : w'.procs w.nextProc = some child
  returned : after.objects = before.objects ++ [object]
  made : ∀ s, flags.has s = true → w.nextPipe ≤ ids s ∧ ids s < w'.nextPipe
  distinct : ∀ s s', flags.has s = true → flags.has s' = true → ids s = ids s' → s = s'
  child_end : ∀ s, flags.has s = true →
    child.table.get s.fileno = some (.pipe (ids s) s.childEnd)
  parent_end : ∀ s, flags.has s = true →
    ∃ n, object.streamFd s = some n ∧ after.table.get n = some (.pipe (ids s) s.parentEnd)
  inherited : ∀ s, flags.has s = false → ∀ d, before.table.get s.fileno = some d →
    child.table.get s.fileno = some d

theorem Stream.parentEnd_ne_childEnd (s : Stream) : s.parentEnd ≠ s.childEnd := by
  cases s <;> decide

/-- The step of a call of `fork`: the wiring, who holds the child's ends, and that the child
holds no other end of the new pipes. -/
theorem callWired_of_step {w w' : ForkWorld} {p : Nat} {flags : StandardStream}
    (hw : w.WellFormed) (h : ForkStep w (.fork p flags) w') :
    ∃ ids before after child object, CallWired w w' p flags ids before after child object ∧
      (∀ s, flags.has s = true → w'.OnlyKin w.nextProc (.pipe (ids s) s.childEnd)) ∧
      ∀ n id side, child.table.get n = some (.pipe id side) → w.nextPipe ≤ id →
        ∃ s, flags.has s = true ∧ id = ids s ∧ side = s.childEnd := by
  cases h with
  | @fork _ img _ object ps kc k' hp hfork =>
    obtain ⟨ids, hnew, -, hparent, hchild, -⟩ := fork_wired hfork
    have hne : p ≠ w.nextProc := by
      rintro rfl
      rw [hw.procs _ (Nat.le_refl _)] at hp
      cases hp
    refine ⟨ids, img, ⟨k'.table, k'.invalidDone, img.objects ++ [object]⟩,
      ⟨kc.table, kc.invalidDone, img.objects⟩, object,
      ⟨hp, (Function.update_of_ne hne ..).trans (Function.update_self ..),
        Function.update_self .., rfl,
        fun s hs => ⟨hnew.new s, hnew.made s hs⟩, hnew.distinct, hchild.redirected,
        fun s hs => hparent.stream hs, hchild.kept⟩, ?_, ?_⟩
    · intro s hs q qimg n hq hd
      rcases update_cases hq with ⟨rfl, ⟨⟩⟩ | ⟨-, hq⟩
      · exact .refl
      · exfalso
        -- the pipe is new, so a holder other than the child has it from this call
        have hold : ∀ {p₀ img₀}, w.procs p₀ = some img₀ → ∀ n₀,
            img₀.table.get n₀ ≠ some (.pipe (ids s) s.childEnd) := by
          intro p₀ img₀ hp₀ n₀ hd₀
          exact absurd (hnew.new s) (Nat.not_le.mpr (hw.pipes p₀ img₀ n₀ _ _ hp₀ hd₀))
        rcases update_cases hq with ⟨rfl, ⟨⟩⟩ | ⟨-, hq⟩
        · rcases hparent.only hd with hbase | ⟨s', hs', he⟩
          · exact hold hp n hbase
          · injection he with hid hside
            have hsame := hnew.distinct s s' hs hs' hid
            subst hsame
            exact s.parentEnd_ne_childEnd hside.symm
        · exact hold hq n hd
    · intro n id side hd hid
      rcases hchild.only n _ hd with hbase | ⟨s, hs, he⟩
      · exact absurd hid (Nat.not_le.mpr (hw.pipes p img n id side hp hbase))
      · cases he
        exact ⟨s, hs, rfl, rfl⟩

/-- The call can always be made. -/
theorem exists_fork_step {w : ForkWorld} {p : Nat} {img : ProcImage} (hp : w.procs p = some img)
    (flags : StandardStream) : ∃ w', ForkStep w (.fork p flags) w' := by
  obtain ⟨⟨object, side⟩, k', hfork, ids, ps, kc, hside, -⟩ :=
    fork_spec (k := w.fdState img) rfl p w.nextProc flags
  cases hside
  exact ⟨_, .fork hp hfork⟩

/-- In every run, a process can call `fork`, and every call wires the streams in the
flags to new pipes; from then on nobody but the child and its descendants ever holds
the child's ends of them. -/
theorem forked_streams_wired {w₀ w : ForkWorld} {ls : List ForkLabel} (hstart : w₀.WellFormed)
    (hrun : forkSystem.Run w₀ ls w) {p : Nat} {img : ProcImage} (hp : w.procs p = some img)
    (flags : StandardStream) :
    (∃ w', forkSystem.step w (.fork p flags) w') ∧
    ∀ w', forkSystem.step w (.fork p flags) w' →
      ∃ ids before after child object, CallWired w w' p flags ids before after child object ∧
        ∀ ms w'', forkSystem.Run w' ms w'' → ∀ s, flags.has s = true →
          w''.OnlyKin w.nextProc (.pipe (ids s) s.childEnd) := by
  have hw := wellFormed_run hrun hstart
  refine ⟨exists_fork_step hp flags, fun w' hstep => ?_⟩
  obtain ⟨ids, before, after, child, object, hwired, honly, -⟩ := callWired_of_step hw hstep
  refine ⟨ids, before, after, child, object, hwired, fun ms w'' hlater s hs => ?_⟩
  have hw' : w'.WellFormed := (flow_of_step hw hstep).wellFormed hw
  exact onlyKin_run hlater hw' (hwired.made s hs).2 (honly s hs)

/-- A process with 0, 1 and 2 closed. -/
def bareImage : ProcImage := ⟨FdTable.empty, false, []⟩

def bareWorld : ForkWorld where
  procs := Function.update (fun _ => none) 0 (some bareImage)
  nextProc := 1
  born := []
  nextPipe := 0

theorem bareWorld_wellFormed : bareWorld.WellFormed where
  pipes p img n id side hp hd := by
    have hp' : Function.update (fun _ => none) 0 (some bareImage) p = some img := hp
    rcases update_cases hp' with ⟨-, ⟨⟩⟩ | ⟨-, hnone⟩
    · cases hd
    · cases hnone
  procs p hp := by
    show Function.update (fun _ => none) 0 (some bareImage) p = none
    exact Function.update_of_ne (Nat.ne_of_gt hp) ..

theorem forked_streams_wired_bare :
    bareWorld.WellFormed ∧ (∃ w', forkSystem.step bareWorld (.fork 0 ⟨7⟩) w') ∧
    ∀ w', forkSystem.step bareWorld (.fork 0 ⟨7⟩) w' →
      ∃ ids before after child object, CallWired bareWorld w' 0 ⟨7⟩ ids before after child object ∧
        ∀ ms w'', forkSystem.Run w' ms w'' → ∀ s, StandardStream.has ⟨7⟩ s = true →
          w''.OnlyKin bareWorld.nextProc (.pipe (ids s) s.childEnd) :=
  ⟨bareWorld_wellFormed, forked_streams_wired bareWorld_wellFormed (.nil _) rfl ⟨7⟩⟩

end ProcessCpp.Core
